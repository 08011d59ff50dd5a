/-
Lengths of time, and the cell that holds a read timeout.  The cell is one word
of 64 bits; its highest value stands for no timeout at all.
-/
namespace RemoteConsole.Channel

/-- A length of time. -/
structure Duration where
  nanoseconds : Nat
deriving DecidableEq, Repr

namespace Duration

def zero : Duration := ⟨0⟩

def perSecond : Nat := 1000000000

def perMillisecond : Nat := 1000000

def ofMilliseconds (n : Nat) : Duration :=
  ⟨n * perMillisecond⟩

/-- Whole seconds, and nanoseconds beyond them. -/
def ofSeconds (seconds nanoseconds : Nat) : Duration :=
  ⟨seconds * perSecond + nanoseconds⟩

def seconds (d : Duration) : Nat :=
  d.nanoseconds / perSecond

/-- The nanoseconds beyond the whole seconds. -/
def rest (d : Duration) : Nat :=
  d.nanoseconds % perSecond

/-- The least number of whole milliseconds that is not shorter. -/
def milliseconds (d : Duration) : Nat :=
  (d.nanoseconds + (perMillisecond - 1)) / perMillisecond

end Duration

/-- A read timeout in one word. -/
structure TimeoutCell where
  word : UInt64
deriving DecidableEq, Repr

namespace TimeoutCell

/-- The word that stands for no timeout. -/
def none : UInt64 := 18446744073709551615

/-- The longest timeout that is stored in the place of longer ones. -/
def longest : UInt64 := 18446744073709551614

def get (c : TimeoutCell) : Option Duration :=
  if c.word = none then .none else some ⟨c.word.toNat⟩

/-- The cell for a timeout.  One that has no word of its own is cut short. -/
def ofTimeout : Option Duration → TimeoutCell
  | .none => ⟨none⟩
  | some d => if d.nanoseconds < UInt64.size then ⟨d.nanoseconds.toUInt64⟩ else ⟨longest⟩

end TimeoutCell

end RemoteConsole.Channel
