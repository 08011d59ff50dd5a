/-
The words of a session and its login, shared by all sessions of a console, and
the stages that a session goes through.
-/
import RemoteConsole.Text.Line
import RemoteConsole.Text.Utf8

namespace RemoteConsole.Session

/-- What a session does with the next line. -/
inductive Stage where
  /-- Takes it for a user name. -/
  | username
  /-- Takes it for a password; nothing typed is shown. -/
  | password
  /-- Takes it for a command. -/
  | commandEntry
  /-- Takes it for a command, while another one runs. -/
  | processing
deriving DecidableEq, Repr

namespace Stage

def name : Stage → String
  | username => "username"
  | password => "password"
  | commandEntry => "command-entry"
  | processing => "processing-command"

/-- The stage with a number; numbers of no stage stand for command entry. -/
def ofNumber : Nat → Stage
  | 0 => username
  | 1 => password
  | 3 => processing
  | _ => commandEntry

def toNumber : Stage → Nat
  | username => 0
  | password => 1
  | commandEntry => 2
  | processing => 3

theorem ofNumber_toNumber (s : Stage) : ofNumber s.toNumber = s := by
  cases s <;> rfl

/-- Whether the user has still to log in. -/
def isLogin (s : Stage) : Bool :=
  s = username || s = password

end Stage

/-- The help screen begins with this. -/
def standardPreamble : String :=
  "Use ? or \"help\" to display help\n" ++
  "Use ! to list history\n" ++
  "Use !n to repeat the n'th command\n" ++
  "Use !! to repeat the last command\n" ++
  "\n" ++
  "Commands available are:"

/-- The words of a session and its login. -/
structure Config where
  /-- Written in the place of every line feed. -/
  newline : String := "\r\n"
  /-- The characters that erase the last character of the line. -/
  editCharacters : String := "\x08\x7f"
  prompt : String := "CLI> "
  usernamePrompt : String := "Username: "
  passwordPrompt : String := "Password: "
  /-- The words that end a session, one a line. -/
  exitCommand : String := "exit\nquit"
  /-- The words that show help, one a line. -/
  helpCommand : String := "?\nhelp"
  /-- Repeats the last command. -/
  repeatCommand : String := "!!"
  /-- Alone, lists the history; before a number, repeats that command. -/
  historyCommand : String := "!"
  /-- Begins a usage line. -/
  usageLead : String := "Usage: "
  /-- Stands between a command's name and its error. -/
  errorLead : String := ": error: "
  unknownCommandError : String := "Unknown command"
  noHistoryError : String := "No command history"
  helpPreamble : String := standardPreamble
  /-- Whether what is typed is sent back. -/
  requireEcho : Bool := false
  /-- The user name to give; if empty, none is asked for. -/
  username : String := ""
  /-- The password to give; if empty, none is asked for. -/
  password : String := ""
deriving DecidableEq, Repr

namespace Config

/-- The stage in which a session begins, and to which a failed login returns. -/
def initialStage (c : Config) : Stage :=
  if c.username ≠ "" then .username
  else if c.password ≠ "" then .password
  else .commandEntry

/-- Whether two texts are equal but for the case of ASCII letters. -/
def sameLetters (a b : String) : Bool :=
  a.toList.map Char.toLower = b.toList.map Char.toLower

/-- Whether a line is one of the words listed, one a line, in any case. -/
def isSynonym (listed line : String) : Bool :=
  ((Text.pieces (· == '\n') listed.toList).map fun word => Text.trim (String.ofList word)).any
    fun word => word ≠ "" && sameLetters word line

def isExit (c : Config) (line : String) : Bool :=
  isSynonym c.exitCommand line

def isHelp (c : Config) (line : String) : Bool :=
  isSynonym c.helpCommand line

/-- Whether a byte erases.  Of a longer character every byte does. -/
def isEdit (c : Config) (b : UInt8) : Bool :=
  (Text.encode c.editCharacters).contains b

end Config

end RemoteConsole.Session
