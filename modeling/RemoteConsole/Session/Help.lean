/-
The help screen: the preamble, then a block for each command with its name on
the left and its texts in one column on the right.
-/
import RemoteConsole.Session.Config
import RemoteConsole.Session.Registry

namespace RemoteConsole.Session

namespace Entry

variable {H : Type}

/-- The text lines of a command: its help, then its usage, introduced by the
usage lead and the command's name. -/
def textLines (entry : Entry H) (config : Config) (name : String) : List String :=
  Text.lines entry.help ++
    match Text.lines entry.usage with
    | [] => []
    | first :: rest => (config.usageLead ++ name ++ " " ++ first) :: rest

end Entry

namespace Registry

variable {H : Type}

/-- A run of spaces. -/
def spaces (n : Nat) : String :=
  String.ofList (List.replicate n ' ')

/-- A text with spaces after it, up to a number of characters. -/
def padded (text : String) (width : Nat) : String :=
  text ++ spaces (width - text.length)

/-- The most bytes in a command's name.  Names are measured in bytes and padded
in characters, so that no name reaches into the text column. -/
def nameWidth (r : Registry H) : Nat :=
  (r.entries.map fun (name, _) => name.utf8ByteSize).foldl max 0

/-- The gap between the name column and the text column. -/
def gap : Nat := 3

/-- The block of one command. -/
def block (width : Nat) (name : String) (texts : List String) : String :=
  padded name width ++
    (match texts with
      | [] => ""
      | first :: rest =>
          spaces gap ++ first ++
            String.join (rest.map fun line => "\n" ++ spaces (width + gap) ++ line)) ++
    "\n"

/-- The help screen. -/
def helpScreen (r : Registry H) (config : Config) : String :=
  config.helpPreamble ++ "\n" ++
    String.join (r.entries.map fun (name, entry) =>
      block r.nameWidth name (entry.textLines config name))

end Registry

end RemoteConsole.Session
