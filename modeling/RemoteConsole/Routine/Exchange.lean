/-
Calls from outside on a state that routines share.  A call is a routine too; its
result is laid out in a tray until the caller takes it.
-/
import RemoteConsole.Routine.Scheduler

namespace RemoteConsole

/-- A shared state, and the results of calls by the numbers of the calls. -/
structure Tray (S R : Type) where
  state : S
  results : List (Nat × R) := []

/-- Routines at work on a state, with calls among them. -/
abbrev Exchange (J S R : Type) := Scheduler J (Tray S R)

namespace Tray

variable {J S R α : Type}

/-- Work on the state of a tray. -/
def lift : Routine J S α → Routine J (Tray S R) α :=
  Routine.within state fun s t => { t with state := s }

/-- Carry out a call and lay out its result. -/
def deliver (number : Nat) (call : Routine J S R) : Routine J (Tray S R) Unit := do
  let result ← lift call
  Routine.modify fun t => { t with results := t.results ++ [(number, result)] }

/-- Whether a call has a result. -/
def has (number : Nat) (t : Tray S R) : Bool :=
  t.results.any fun (other, _) => other = number

/-- Take the result of a call. -/
def take (t : Tray S R) (number : Nat) : Option R × Tray S R :=
  (t.results.lookup number,
    { t with results := t.results.filter fun (other, _) => other ≠ number })

end Tray

namespace Exchange

variable {J S R : Type}

/-- An exchange on which no one is at work. -/
def on (s : S) : Exchange J S R :=
  { state := { state := s } }

def state (e : Exchange J S R) : S :=
  (Scheduler.state e).state

/-- Change the state from outside. -/
def change (e : Exchange J S R) (f : S → S) : Exchange J S R :=
  e.update fun t => { t with state := f t.state }

/-- Let everyone go on until no one can. -/
def settle (launch : J → Routine J S Unit) (e : Exchange J S R) : Exchange J S R :=
  Scheduler.settle (fun job => Tray.lift (launch job)) e

/-- Begin a call, to go on when the others do: the number of the call. -/
def begin (e : Exchange J S R) (call : Routine J S R) : Nat × Exchange J S R :=
  (e.next, e.start (Tray.deliver e.next call))

/-- Move the clock on at one stroke. -/
def leap (launch : J → Routine J S Unit) (time : Nat) (e : Exchange J S R) :
    Exchange J S R :=
  Scheduler.leap (fun job => Tray.lift (launch job)) (e.time + time) e

/-- How long a call is waited for, in milliseconds: an hour. -/
def patience : Nat := 3600000

/-- Wait for the result of a call.  A call that takes too long is given up. -/
def finish (launch : J → Routine J S Unit) (e : Exchange J S R) (number : Nat) :
    Option R × Exchange J S R :=
  let e := Scheduler.passUntil (fun job => Tray.lift (launch job)) (Tray.has number)
    (e.time + patience) e
  let (result, tray) := Tray.take (Scheduler.state e) number
  match result with
  | some r => (some r, { e with state := tray })
  | none => (none, e.cancel number)

/-- Make a call and wait for its result. -/
def call (launch : J → Routine J S Unit) (e : Exchange J S R) (r : Routine J S R) :
    Option R × Exchange J S R :=
  let (number, e) := e.begin r
  Exchange.finish launch { e with caller := some number } number

end Exchange

end RemoteConsole
