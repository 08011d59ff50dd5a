/-
The memory of a session, and what typing does to it: editing of the pending
line, folding of line ends, and looking up earlier lines.
-/
import RemoteConsole.Log
import RemoteConsole.Session.Config

namespace RemoteConsole.Session

/-- The memory of a session. -/
structure State where
  stage : Stage
  /-- What was typed of the pending line. -/
  typed : Log Char := .empty
  /-- Whether a line has just ended, so that another end is part of the same. -/
  lineEnded : Bool := false
  /-- The user name of the last login. -/
  username : String := ""
  /-- The lines carried out. -/
  history : Log String := .empty
  /-- Whether what is typed is sent back. -/
  requireEcho : Bool := false
  /-- Whether the session was ever started. -/
  running : Bool := false
  /-- Whether the session has run to its end. -/
  finished : Bool := false
deriving DecidableEq, Repr

namespace State

/-- A session that nothing has happened to. -/
def initial (c : Config) : State :=
  { stage := c.initialStage, requireEcho := c.requireEcho }

/-- The line typed so far. -/
def line (s : State) : String :=
  String.ofList s.typed.toList

end State

/-- What a key does to the screen. -/
inductive Echo where
  | none
  /-- The last character disappears. -/
  | erase
  | show (b : UInt8)
deriving DecidableEq, Repr

namespace Echo

/-- The bytes that bring the screen up to date: to erase is to go back, write a
space and go back again. -/
def bytes : Echo → List UInt8
  | none => []
  | erase => [0x08, 0x20, 0x08]
  | «show» b => [b]

end Echo

/-- Printable ASCII. -/
def isPrintable (b : UInt8) : Bool :=
  0x20 ≤ b && b < 0x7f

/-- Whether a byte ends a line. -/
def isLineEnd (b : UInt8) : Bool :=
  b = 13 || b = 10

namespace State

/-- Edit the line with a byte that does not end it.  A byte that erases does so
even if it is printable; bytes that are neither do nothing. -/
def edit (s : State) (c : Config) (b : UInt8) : State × Echo :=
  let s := { s with lineEnded := false }
  if c.isEdit b then
    if s.typed.isEmpty then (s, .none) else ({ s with typed := s.typed.dropNewest }, .erase)
  else if isPrintable b then
    ({ s with typed := s.typed.add (Char.ofNat b.toNat) }, .show b)
  else (s, .none)

/-- End the line: the line, unless this end belongs to the one before. -/
def endLine (s : State) : State × Option String :=
  if s.lineEnded then ({ s with lineEnded := false }, none)
  else ({ s with lineEnded := true, typed := .empty }, some s.line)

/-- Whether typed characters are shown. -/
def showsTyping (s : State) : Bool :=
  s.requireEcho && s.stage ≠ .password

/-- Whether the far end is to show what its user types. -/
def wantsLocalEcho (s : State) : Bool :=
  s.stage ≠ .password && !s.requireEcho

end State

/-- What a line comes to once references to history are replaced. -/
inductive Resolved where
  /-- A line to carry out. -/
  | line (text : String)
  /-- The history is asked for. -/
  | listing
  /-- The history holds no such line. -/
  | missing
deriving DecidableEq, Repr

namespace History

/-- Read a number in decimal, with a plus sign or without. -/
def number? (cs : List Char) : Option Nat :=
  let digits := match cs with
    | '+' :: rest => rest
    | _ => cs
  if digits ≠ [] ∧ digits.all Char.isDigit then
    some (digits.foldl (fun n c => 10 * n + (c.toNat - '0'.toNat)) 0)
  else none

/-- The n-th line, counted from one. -/
def nth? (history : List String) (n : Nat) : Option String :=
  if n = 0 then none else history[n - 1]?

/-- The text after the history command, if the line begins with it. -/
def reference? (command line : List Char) : Option (List Char) :=
  if command ≠ [] ∧ command.isPrefixOf line then some (line.drop command.length) else none

/-- Replace a reference to history.  The repeat command is tried first. -/
def resolve (c : Config) (history : Log String) (line : String) : Resolved :=
  if line = c.repeatCommand then
    match history.newest? with
    | some last => .line last
    | none => .missing
  else
    match reference? c.historyCommand.toList line.toList with
    | none => .line line
    | some rest =>
        let which := Text.trim (String.ofList rest)
        if which = "" then .listing
        else
          match (number? which.toList).bind (nth? history.toList) with
          | some entry => .line entry
          | none => .missing

/-- A number right-aligned in three places. -/
def aligned (n : Nat) : String :=
  let digits := toString n
  String.ofList (List.replicate (3 - digits.length) ' ') ++ digits

/-- The history as numbered lines. -/
def listing (history : List String) : String :=
  String.join (history.mapIdx fun i line => aligned (i + 1) ++ " " ++ line ++ "\n")

end History

end RemoteConsole.Session
