/-
The commands that sessions know, by name.  A name is a list of words in its
normal spelling; entries are kept in increasing order of name, which is the
order of the names' UTF-8 bytes too.
-/
import RemoteConsole.Text.Blank

namespace RemoteConsole.Session

/-- What is known of a command: what it does, and two texts for its user. -/
structure Entry (H : Type) where
  handler : H
  help : String
  usage : String

/-- The command at the beginning of a list of tokens. -/
structure Match (H : Type) where
  /-- How many tokens make up the name. -/
  count : Nat
  name : String
  entry : Entry H

/-- Entries by name, in increasing order of name. -/
structure Registry (H : Type) where
  entries : List (String × Entry H) := []

namespace Registry

variable {H : Type}

/-- The names listed in a text, one a line, in their normal spelling.  A name that is
listed several times in a row counts once. -/
def namesIn (listed : String) : List String :=
  let names := (Text.pieces (· == '\n') listed.toList).map fun line =>
    Text.normalize (String.ofList line)
  (names.filter fun name => name ≠ "").eraseReps

/-- Put an entry in its place, over any entry of the same name. -/
def insertInto (name : String) (entry : Entry H) :
    List (String × Entry H) → List (String × Entry H)
  | [] => [(name, entry)]
  | (other, e) :: rest =>
      if name < other then (name, entry) :: (other, e) :: rest
      else if name = other then (name, entry) :: rest
      else (other, e) :: insertInto name entry rest

def get? (r : Registry H) (name : String) : Option (Entry H) :=
  r.entries.lookup name

def contains (r : Registry H) (name : String) : Bool :=
  (r.get? name).isSome

def insert (r : Registry H) (name : String) (entry : Entry H) : Registry H :=
  ⟨insertInto name entry r.entries⟩

def erase (r : Registry H) (name : String) : Registry H :=
  ⟨r.entries.filter fun (other, _) => other ≠ name⟩

/-- Give an entry all the names listed, or none of them: nothing is done if no
name is listed or one is taken.  The flag tells whether it was done. -/
def register (r : Registry H) (listed : String) (entry : Entry H) : Registry H × Bool :=
  let names := namesIn listed
  if names.isEmpty || names.any r.contains then (r, false)
  else (names.foldl (fun r name => r.insert name entry) r, true)

/-- Forget the names listed.  The flag tells whether any of them was known. -/
def remove (r : Registry H) (listed : String) : Registry H × Bool :=
  let names := namesIn listed
  (names.foldl erase r, names.any r.contains)

/-- The entry of a name in any spelling. -/
def lookup (r : Registry H) (name : String) : Option (Entry H) :=
  r.get? (Text.normalize name)

/-- The longest command that tokens begin with, of which `count` make up `name` and
the rest is still to come; `found` is the longest one so far. -/
def longestFrom (r : Registry H) (found : Option (Match H)) (count : Nat) (name : String) :
    List String → Option (Match H)
  | [] => found
  | token :: rest =>
      let name := if count = 0 then token else name ++ " " ++ token
      let found := ((r.get? name).map fun entry => ⟨count + 1, name, entry⟩).or found
      r.longestFrom found (count + 1) name rest

/-- The longest command that the tokens begin with. -/
def longest (r : Registry H) (tokens : List String) : Option (Match H) :=
  r.longestFrom none 0 "" tokens

def size (r : Registry H) : Nat :=
  r.entries.length

end Registry

end RemoteConsole.Session
