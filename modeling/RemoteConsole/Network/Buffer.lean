/-
Buffers: bytes on their way, put in at one end and taken out at the other.  The
bytes put in last are kept newest first until those before them are gone, so that
every byte is handled a fixed number of times on its way.
-/
namespace RemoteConsole.Network

structure Buffer where
  /-- The bytes to be taken next, oldest first. -/
  front : List UInt8
  /-- The bytes that come after them, newest first. -/
  back : List UInt8
  /-- How many bytes there are. -/
  size : Nat
  size_eq : size = front.length + back.length

namespace Buffer

def empty : Buffer where
  front := []
  back := []
  size := 0
  size_eq := Nat.zero_add 0

/-- The bytes, oldest first. -/
def toList (b : Buffer) : List UInt8 :=
  b.front ++ b.back.reverse

@[simp] theorem length_toList (b : Buffer) : b.toList.length = b.size := by
  simp [toList, b.size_eq]

@[simp] theorem toList_empty : empty.toList = [] :=
  rfl

def isEmpty (b : Buffer) : Bool :=
  b.size = 0

theorem isEmpty_iff (b : Buffer) : b.isEmpty = true ↔ b.toList = [] := by
  rw [← List.length_eq_zero_iff, length_toList, isEmpty, decide_eq_true_iff]

/-- Put bytes in. -/
def append (b : Buffer) (bytes : List UInt8) : Buffer where
  front := b.front
  back := bytes.reverse ++ b.back
  size := b.size + bytes.length
  size_eq := by simp [b.size_eq]; omega

@[simp] theorem toList_append (b : Buffer) (bytes : List UInt8) :
    (b.append bytes).toList = b.toList ++ bytes := by
  simp [toList, append]

/-- All bytes at the front. -/
def gather (b : Buffer) : Buffer where
  front := b.toList
  back := []
  size := b.size
  size_eq := by simp

/-- Take the oldest bytes out, at most so many. -/
def take (b : Buffer) (count : Nat) : List UInt8 × Buffer :=
  let b := if (b.front.drop (count - 1)).isEmpty then b.gather else b
  let bytes := b.front.take count
  (bytes,
    { front := b.front.drop count
      back := b.back
      size := b.size - bytes.length
      size_eq := by simp [bytes, b.size_eq]; omega })

/-- What is taken out comes before what stays. -/
theorem take_append (b : Buffer) (count : Nat) :
    (b.take count).1 ++ (b.take count).2.toList = b.toList := by
  simp only [take]
  split <;> simp [toList, gather, ← List.append_assoc]

/-- As many bytes are taken out as there are, up to the number asked for. -/
theorem length_take (b : Buffer) (count : Nat) :
    (b.take count).1.length = min count b.size := by
  simp only [take]
  split
  · simp [gather]
  · rename_i filled
    have longer : count - 1 < b.front.length := by simpa using filled
    simp [b.size_eq]
    omega

end Buffer

end RemoteConsole.Network
