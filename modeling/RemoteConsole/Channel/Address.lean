/-
Internet addresses with a port, as the far ends of channels have them.  An
address can be written in several ways; `text` is the one that is shown.
-/
namespace RemoteConsole.Channel

/-- Where the far end of a channel is. -/
inductive Address where
  /-- Four octets, and a port. -/
  | v4 (octets : Vector UInt8 4) (port : UInt16)
  /-- Eight groups of 16 bits, the number of the zone they hold in, and a port. -/
  | v6 (groups : Vector UInt16 8) (zone : UInt32) (port : UInt16)
deriving DecidableEq, Repr

namespace Address

/-! Writing. -/

/-- Numbers in some base, with a mark between them. -/
def joined (base : Nat) (mark : String) (numbers : List Nat) : String :=
  mark.intercalate (numbers.map fun n => String.ofList (Nat.toDigits base n))

def decimal (n : Nat) : String :=
  joined 10 "" [n]

/-- How many zeros a list begins with. -/
def leadingZeros (groups : List Nat) : Nat :=
  (groups.takeWhile (· = 0)).length

/-- Where the longest run of zeros begins, the first if there are several, and how
long it is. -/
def longestZeros (groups : List Nat) : Nat × Nat :=
  (List.range groups.length).foldl
    (fun (start, length) i =>
      let here := leadingZeros (groups.drop i)
      if length < here then (i, here) else (start, length))
    (0, 0)

/-- Groups in lower case.  Two colons stand for the longest run of zeros, if it has
two or more; an address of the older kind within one of the newer is written with
octets. -/
def groupsText (groups : List Nat) : String :=
  if groups.take 6 = [0, 0, 0, 0, 0, 0xffff] then
    "::ffff:" ++ joined 10 "." ((groups.drop 6).flatMap fun g => [g / 256, g % 256])
  else
    let (start, length) := longestZeros groups
    if length < 2 then joined 16 ":" groups
    else
      joined 16 ":" (groups.take start) ++ "::" ++
        joined 16 ":" (groups.drop (start + length))

/-- An address as it is shown. -/
def text : Address → String
  | v4 octets port =>
      joined 10 "." (octets.toList.map UInt8.toNat) ++ ":" ++ decimal port.toNat
  | v6 groups zone port =>
      "[" ++ groupsText (groups.toList.map UInt16.toNat) ++
        (if zone = 0 then "" else "%" ++ decimal zone.toNat) ++ "]:" ++ decimal port.toNat

/-! Reading.  Each reader takes what it reads from the head of a text and gives the
rest of it. -/

/-- The value of a digit, in either case. -/
def digit? (base : Nat) (c : Char) : Option Nat :=
  let value? : Option Nat :=
    if '0' ≤ c ∧ c ≤ '9' then some (c.toNat - '0'.toNat)
    else if 'a' ≤ c ∧ c ≤ 'z' then some (c.toNat - 'a'.toNat + 10)
    else if 'A' ≤ c ∧ c ≤ 'Z' then some (c.toNat - 'A'.toNat + 10)
    else none
  value?.filter (· < base)

/-- Read a number below a bound that is written in a certain way. -/
def number? (base bound : Nat) (wellWritten : List Char → Bool) (cs : List Char) :
    Option (Nat × List Char) :=
  let isDigit c := (digit? base c).isSome
  let digits := cs.takeWhile isDigit
  let n := (digits.filterMap (digit? base)).foldl (fun n d => base * n + d) 0
  if digits ≠ [] ∧ wellWritten digits = true ∧ n < bound then
    some (n, cs.dropWhile isDigit)
  else none

/-- Read a mark. -/
def mark? (mark : Char) : List Char → Option (List Char)
  | c :: rest => if c = mark then some rest else none
  | [] => none

/-- Read octets with points between them.  They have no leading zeros. -/
def octets? (isFirst : Bool) : Nat → List Char → Option (List Nat × List Char)
  | 0, cs => some ([], cs)
  | n + 1, cs => do
      let cs ← if isFirst then some cs else mark? '.' cs
      let (octet, cs) ← number? 10 256 (fun ds => ds.head? ≠ some '0' || ds.length = 1) cs
      let (octets, cs) ← octets? false n cs
      return (octet :: octets, cs)

/-- Read one group of at most four digits. -/
def group? (cs : List Char) : Option (Nat × List Char) :=
  number? 16 65536 (·.length ≤ 4) cs

/-- Read two groups that are written as octets. -/
def octetGroups? (cs : List Char) : Option (List Nat × List Char) := do
  match ← octets? true 4 cs with
  | ([a, b, c, d], rest) => return ([256 * a + b, 256 * c + d], rest)
  | _ => none

/-- Read groups with colons between them, as many as there are up to a number.  The
flag tells whether the last two were written as octets. -/
def groups (isFirst : Bool) : Nat → List Char → (List Nat × Bool) × List Char
  | 0, cs => (([], false), cs)
  | n + 1, cs =>
      let next := if isFirst then some cs else mark? ':' cs
      match if n = 0 then none else next.bind octetGroups? with
      | some (last, rest) => ((last, true), rest)
      | none =>
          match next.bind group? with
          | none => (([], false), cs)
          | some (group, rest) =>
              let ((more, inOctets), rest) := groups false n rest
              ((group :: more, inOctets), rest)

/-- Read eight groups.  Two colons, before which there are no octets, stand for one
group of zero or more of them. -/
def allGroups? (cs : List Char) : Option (List Nat × List Char) :=
  let ((first, inOctets), rest) := groups true 8 cs
  if first.length = 8 then some (first, rest)
  else if inOctets then none
  else do
    let rest ← mark? ':' (← mark? ':' rest)
    let ((last, _), rest) := groups true (7 - first.length) rest
    return (first ++ List.replicate (8 - first.length - last.length) 0 ++ last, rest)

def port? (cs : List Char) : Option (Nat × List Char) := do
  number? 10 65536 (fun _ => true) (← mark? ':' cs)

/-- Read the number of a zone.  Where there is none it is zero. -/
def zone (cs : List Char) : Nat × List Char :=
  ((mark? '%' cs).bind (number? 10 4294967296 fun _ => true)).getD (0, cs)

def readV4? (cs : List Char) : Option (Address × List Char) := do
  let (octets, cs) ← octets? true 4 cs
  let (port, cs) ← port? cs
  return (v4 (.ofFn fun i => (octets.getD i 0).toUInt8) port.toUInt16, cs)

def readV6? (cs : List Char) : Option (Address × List Char) := do
  let (groups, cs) ← allGroups? (← mark? '[' cs)
  let (zone, cs) := zone cs
  let (port, cs) ← port? (← mark? ']' cs)
  return (v6 (.ofFn fun i => (groups.getD i 0).toUInt16) zone.toUInt32 port.toUInt16, cs)

/-- The address that a whole text is. -/
def ofText? (text : String) : Option Address :=
  match (readV4? text.toList).or (readV6? text.toList) with
  | some (address, []) => some address
  | _ => none

end Address

end RemoteConsole.Channel
