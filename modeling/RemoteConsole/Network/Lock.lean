/-
Locks that are granted in the order in which they were asked for.
-/
namespace RemoteConsole.Network

/-- A lock, and the tickets of those who hold it and wait for it. -/
structure Lock where
  holder : Option Nat := none
  queue : List Nat := []
deriving DecidableEq, Repr

namespace Lock

def isFree (l : Lock) : Bool :=
  l.holder.isNone

def isHeldBy (l : Lock) (ticket : Nat) : Bool :=
  l.holder = some ticket

/-- Ask for the lock: hold it if it is free, else wait for it. -/
def ask (l : Lock) (ticket : Nat) : Lock :=
  if l.isFree then { l with holder := some ticket }
  else { l with queue := l.queue ++ [ticket] }

/-- Give the lock to the one that waits longest. -/
def pass (l : Lock) : Lock :=
  match l.queue with
  | [] => { l with holder := none }
  | ticket :: queue => ⟨some ticket, queue⟩

/-- Hold the lock no longer, or wait for it no longer. -/
def leave (l : Lock) (ticket : Nat) : Lock :=
  if l.isHeldBy ticket then l.pass else { l with queue := l.queue.filter (· ≠ ticket) }

end Lock

end RemoteConsole.Network
