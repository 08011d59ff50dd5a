/-
What a command is given: the line that was entered, the tokens after its name,
and a place to collect its output.
-/
import RemoteConsole.Session.Config
import RemoteConsole.Text.Quoted

namespace RemoteConsole.Session

/-- A command line on its way through a command. -/
structure Arguments where
  line : String
  /-- The tokens not taken yet. -/
  tokens : List String
  /-- The command's name. -/
  command : String := ""
  usage : String := ""
  /-- Output that has not been sent. -/
  output : String := ""
deriving DecidableEq, Repr

namespace Arguments

/-- A line before its command is known. -/
def ofLine (line : String) : Arguments :=
  { line, tokens := Text.tokens line }

/-- Take up to `count` tokens away. -/
def shift (a : Arguments) (count : Nat) : Arguments :=
  { a with tokens := a.tokens.drop count }

/-- Take the tokens of the command's name away, and note the command. -/
def bind (a : Arguments) (count : Nat) (command usage : String) : Arguments :=
  { a.shift count with command, usage }

/-- Collect text. -/
def write (a : Arguments) (text : String) : Arguments :=
  { a with output := a.output ++ text }

/-- Collect an error line that names the command. -/
def writeError (a : Arguments) (config : Config) (message : String) : Arguments :=
  a.write (a.command ++ config.errorLead ++ message ++ "\n")

/-- Collect the usage line of the command. -/
def writeUsage (a : Arguments) (config : Config) : Arguments :=
  a.write
    (config.usageLead ++ a.command ++ (if a.usage = "" then "" else " " ++ a.usage) ++ "\n")

end Arguments

end RemoteConsole.Session
