/-
One direction of a pipe: bytes on their way, up to a capacity.
-/
import RemoteConsole.Network.Buffer

namespace RemoteConsole.Network

structure Pipe where
  capacity : Nat
  buffer : Buffer := .empty
  /-- Whether nothing will be written any more, because the writing end is shut
  or the reading end is gone. -/
  closed : Bool := false

namespace Pipe

def space (p : Pipe) : Nat :=
  p.capacity - p.buffer.size

/-- Whether a read would find something, be it the end. -/
def canRead (p : Pipe) : Bool :=
  !p.buffer.isEmpty || p.closed

/-- Whether a write would get somewhere, be it a failure. -/
def canWrite (p : Pipe) : Bool :=
  p.closed || 0 < p.space

/-- Take the oldest bytes, at most so many. -/
def take (p : Pipe) (count : Nat) : List UInt8 × Pipe :=
  let (bytes, buffer) := p.buffer.take count
  (bytes, { p with buffer })

/-- Put in as many of the bytes as there is space for; the rest is left over. -/
def put (p : Pipe) (bytes : List UInt8) : List UInt8 × Pipe :=
  (bytes.drop p.space, { p with buffer := p.buffer.append (bytes.take p.space) })

def close (p : Pipe) : Pipe :=
  { p with closed := true }

/-- What is put in and what is left over make up what was given. -/
theorem put_append (p : Pipe) (bytes : List UInt8) :
    (p.put bytes).2.buffer.toList ++ (p.put bytes).1 = p.buffer.toList ++ bytes := by
  simp [put, List.append_assoc]

/-- What is taken comes before what stays. -/
theorem take_append (p : Pipe) (count : Nat) :
    (p.take count).1 ++ (p.take count).2.buffer.toList = p.buffer.toList :=
  p.buffer.take_append count

end Pipe

end RemoteConsole.Network
