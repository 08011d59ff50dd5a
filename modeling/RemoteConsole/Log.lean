/-
Logs: entries in the order in which they were made.  The newest is kept at the
head, and their number beside them, so that one more is added in one step however
long the log is.
-/
namespace RemoteConsole

structure Log (α : Type u) where
  newestFirst : List α
  length : Nat
  length_eq : length = newestFirst.length
deriving DecidableEq, Repr

namespace Log

variable {α : Type u}

def empty : Log α :=
  ⟨[], 0, rfl⟩

/-- The entries, oldest first. -/
def toList (l : Log α) : List α :=
  l.newestFirst.reverse

def isEmpty (l : Log α) : Bool :=
  l.newestFirst.isEmpty

/-- The newest entry. -/
def newest? (l : Log α) : Option α :=
  l.newestFirst.head?

def add (l : Log α) (a : α) : Log α where
  newestFirst := a :: l.newestFirst
  length := l.length + 1
  length_eq := by simp [l.length_eq]

/-- Add entries, the first of them first. -/
def addAll (l : Log α) (as : List α) : Log α :=
  as.foldl add l

/-- Take the newest entry away, if there is one. -/
def dropNewest (l : Log α) : Log α where
  newestFirst := l.newestFirst.tail
  length := l.length - 1
  length_eq := by simp [l.length_eq]

@[simp] theorem toList_empty : (empty : Log α).toList = [] :=
  rfl

@[simp] theorem length_toList (l : Log α) : l.toList.length = l.length := by
  simp [toList, l.length_eq]

@[simp] theorem toList_add (l : Log α) (a : α) : (l.add a).toList = l.toList ++ [a] := by
  simp [toList, add]

@[simp] theorem toList_addAll (l : Log α) (as : List α) :
    (l.addAll as).toList = l.toList ++ as := by
  induction as generalizing l with
  | nil => simp [addAll]
  | cons a as ih => simpa [addAll, List.append_assoc] using ih (l.add a)

@[simp] theorem toList_dropNewest (l : Log α) : l.dropNewest.toList = l.toList.dropLast := by
  simp [toList, dropNewest]

theorem newest?_eq (l : Log α) : l.newest? = l.toList.getLast? := by
  simp [newest?, toList]

end Log

end RemoteConsole
