/-
The scheduler: routines side by side on one state and one clock.  Routines that
can go on do so in the order in which they became able to, one at a time, each
until it waits.  Time passes only when none can go on.  One of them may be the
call that is waited for from outside: it goes first at each new time, and else last.
-/
import RemoteConsole.Routine.Basic

namespace RemoteConsole

/-- A routine at work, with a number to call it by. -/
structure Thread (J S : Type) where
  number : Nat
  routine : Routine J S Unit

structure Scheduler (J S : Type) where
  state : S
  time : Nat := 0
  /-- The threads that can go on, first come first served. -/
  ready : List (Thread J S) := []
  /-- The threads that wait, longest first. -/
  waiting : List (Thread J S) := []
  /-- The number of the next thread. -/
  next : Nat := 0
  /-- The number of the thread that is waited for from outside. -/
  caller : Option Nat := none

namespace Thread

variable {J S : Type}

/-- Whether a thread that waits may go on. -/
def isDue (t : Thread J S) (s : S) (time : Nat) : Bool :=
  match t.routine with
  | .wait w _ => w.isOver s time
  | _ => true

/-- When a thread that waits will go on at the latest. -/
def deadline (t : Thread J S) : Option Nat :=
  match t.routine with
  | .wait w _ => w.deadline
  | _ => none

end Thread

namespace Scheduler

variable {J S : Type}

/-- Start a routine, to go on after those that are ready. -/
def start (c : Scheduler J S) (r : Routine J S Unit) : Scheduler J S :=
  { c with ready := c.ready ++ [⟨c.next, r⟩], next := c.next + 1 }

/-- Let the threads go on whose waits are over. -/
def wake (c : Scheduler J S) : Scheduler J S :=
  let (due, waiting) := c.waiting.partition (·.isDue c.state c.time)
  { c with ready := c.ready ++ due, waiting }

/-- Let the first ready thread go on until it waits.  The jobs that it sets going
are started by `launch`. -/
def resume (launch : J → Routine J S Unit) (c : Scheduler J S) : Scheduler J S :=
  match c.ready with
  | [] => c
  | t :: ready =>
      let (state, jobs, rest) := t.routine.advance c.time c.state
      let waiting := match rest with
        | .done _ => c.waiting
        | rest => c.waiting ++ [{ t with routine := rest }]
      wake (jobs.foldl (fun c job => c.start (launch job)) { c with state, ready, waiting })

/-- The ready threads: the one that is waited for from outside, and the others. -/
def readyByCaller (c : Scheduler J S) : List (Thread J S) × List (Thread J S) :=
  c.ready.partition fun t => c.caller = some t.number

/-- Let a ready thread go on until it waits, the one that is waited for from outside
after the others. -/
def step (launch : J → Routine J S Unit) (c : Scheduler J S) : Scheduler J S :=
  let (caller, others) := c.readyByCaller
  { c with ready := others ++ caller }.resume launch

/-- Let the thread that is waited for from outside go on, if it can. -/
def stepCaller (launch : J → Routine J S Unit) (c : Scheduler J S) : Scheduler J S :=
  match c.readyByCaller with
  | ([], _) => c
  | (caller, others) => { c with ready := caller ++ others }.resume launch

/-- More steps than threads ever take. -/
def patience : Nat := 1099511627776

/-- Let threads go on until none can, in so many steps at most. -/
def settleWithin (launch : J → Routine J S Unit) : Nat → Scheduler J S → Scheduler J S
  | 0, c => c
  | n + 1, c => if c.ready.isEmpty then c else settleWithin launch n (c.step launch)

/-- Let threads go on until none can. -/
def settle (launch : J → Routine J S Unit) (c : Scheduler J S) : Scheduler J S :=
  settleWithin launch patience c.wake

/-- The next time at which a wait is over by itself. -/
def nextDeadline (c : Scheduler J S) : Option Nat :=
  c.waiting.foldl (fun d t => Routine.earlier d t.deadline) none

/-- Let time pass to `limit`, but no further than `enough` asks. -/
def passWithin (launch : J → Routine J S Unit) (enough : S → Bool) (limit : Nat) :
    Nat → Scheduler J S → Scheduler J S
  | 0, c => c
  | n + 1, c =>
      let c := (c.wake.stepCaller launch).settle launch
      if enough c.state then c
      else
        match c.nextDeadline with
        | some time =>
            if time ≤ limit then
              passWithin launch enough limit n { c with time := max time c.time }
            else { c with time := max limit c.time }
        | none => { c with time := max limit c.time }

/-- Let time pass until the state has what is asked for, or the time comes. -/
def passUntil (launch : J → Routine J S Unit) (enough : S → Bool) (limit : Nat)
    (c : Scheduler J S) : Scheduler J S :=
  passWithin launch enough limit patience c

/-- Whether a thread's wait is over by itself no later than another's. -/
def isDueBefore (t u : Thread J S) : Bool :=
  match t.deadline, u.deadline with
  | some a, some b => a ≤ b
  | some _, none => true
  | none, some _ => false
  | none, none => true

/-- Move the clock on at one stroke.  The threads that the state lets go on do so
first, then those whose waits are over by then, in the order of their deadlines; to
all of them it is the new time. -/
def leap (launch : J → Routine J S Unit) (time : Nat) (c : Scheduler J S) :
    Scheduler J S :=
  let c := { c.wake with time }
  let (due, waiting) := c.waiting.partition (·.isDue c.state c.time)
  { c with ready := c.ready ++ due.mergeSort isDueBefore, waiting }.settle launch

/-- Change the state from outside. -/
def update (c : Scheduler J S) (f : S → S) : Scheduler J S :=
  { c with state := f c.state }

/-- Give a thread up where it waits. -/
def cancel (c : Scheduler J S) (number : Nat) : Scheduler J S :=
  let (gone, waiting) := c.waiting.partition (·.number = number)
  gone.foldl
    (fun c t => match t.routine with
      | .wait w _ => c.update w.abandon
      | _ => c)
    { c with waiting }

end Scheduler

end RemoteConsole
