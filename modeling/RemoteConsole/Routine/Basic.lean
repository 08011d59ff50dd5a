/-
Routines: work that several parties do on one shared state, each until it has to
wait.  A routine is a tree, so every routine ends if its waits do; what runs side
by side is decided by the scheduler.
-/
namespace RemoteConsole

/-- What a routine waits for.  It goes on when the state is ready, or when the
deadline comes; `abandon` is what giving up here does to the state. -/
structure Wait (S : Type) where
  ready : S → Bool
  deadline : Option Nat := none
  abandon : S → S := id

/-- Whether a wait is over. -/
def Wait.isOver {S : Type} (w : Wait S) (s : S) (time : Nat) : Bool :=
  w.ready s || w.deadline.any (· ≤ time)

/-- Work on a shared state `S` that may set jobs of type `J` going.  Between two
waits it is not interrupted. -/
inductive Routine (J S α : Type) where
  | done (a : α)
  | look (next : S → Routine J S α)
  | put (s : S) (next : Routine J S α)
  | clock (next : Nat → Routine J S α)
  | spawn (job : J) (next : Routine J S α)
  /-- Wait.  What follows is told whether the state was ready. -/
  | wait (w : Wait S) (next : Bool → Routine J S α)

namespace Routine

variable {J S T α β : Type}

protected def bind : Routine J S α → (α → Routine J S β) → Routine J S β
  | done a, f => f a
  | look next, f => look fun s => (next s).bind f
  | put s next, f => put s (next.bind f)
  | clock next, f => clock fun t => (next t).bind f
  | spawn job next, f => spawn job (next.bind f)
  | wait w next, f => wait w fun r => (next r).bind f

instance : Monad (Routine J S) where
  pure := done
  bind := Routine.bind

theorem bind_done (r : Routine J S α) : r.bind done = r := by
  induction r with
  | done a => rfl
  | look next ih => simp only [Routine.bind, ih]
  | put s next ih => simp only [Routine.bind, ih]
  | clock next ih => simp only [Routine.bind, ih]
  | spawn job next ih => simp only [Routine.bind, ih]
  | wait w next ih => simp only [Routine.bind, ih]

theorem bind_bind {γ : Type} (r : Routine J S α) (f : α → Routine J S β)
    (g : β → Routine J S γ) : (r.bind f).bind g = r.bind fun a => (f a).bind g := by
  induction r with
  | done a => rfl
  | look next ih => simp only [Routine.bind, ih]
  | put s next ih => simp only [Routine.bind, ih]
  | clock next ih => simp only [Routine.bind, ih]
  | spawn job next ih => simp only [Routine.bind, ih]
  | wait w next ih => simp only [Routine.bind, ih]

instance : LawfulMonad (Routine J S) :=
  LawfulMonad.mk' _ bind_done (fun _ _ => rfl) bind_bind

/-- The shared state. -/
def get : Routine J S S :=
  look done

/-- Change the shared state. -/
def modify (f : S → S) : Routine J S Unit :=
  look fun s => put (f s) (done ())

/-- Change the shared state, and keep something of it. -/
def modifyGet (f : S → α × S) : Routine J S α :=
  look fun s => put (f s).2 (done (f s).1)

/-- The time. -/
def now : Routine J S Nat :=
  clock done

/-- Set a job going. -/
def launch (job : J) : Routine J S Unit :=
  spawn job (done ())

/-- Wait.  The result tells whether the state was ready. -/
def await (w : Wait S) : Routine J S Bool :=
  wait w done

/-- Wait for the state to be ready, however long it takes. -/
def awaitReady (ready : S → Bool) : Routine J S Unit :=
  wait { ready } fun _ => done ()

/-- Let some time pass. -/
def sleep (time : Nat) : Routine J S Unit :=
  clock fun now => wait { ready := fun _ => false, deadline := some (now + time) } fun _ => done ()

/-- Undo something if the routine is given up before its end. -/
def onAbandon (undo : S → S) : Routine J S α → Routine J S α
  | done a => done a
  | look next => look fun s => (next s).onAbandon undo
  | put s next => put s (next.onAbandon undo)
  | clock next => clock fun t => (next t).onAbandon undo
  | spawn job next => spawn job (next.onAbandon undo)
  | wait w next =>
      wait { w with abandon := fun s => undo (w.abandon s) } fun r => (next r).onAbandon undo

/-- Give a routine up when it waits and the state calls for it. -/
def giveUpWhen (stop : S → Bool) : Routine J S α → Routine J S (Option α)
  | done a => done (some a)
  | look next => look fun s => (next s).giveUpWhen stop
  | put s next => put s (next.giveUpWhen stop)
  | clock next => clock fun t => (next t).giveUpWhen stop
  | spawn job next => spawn job (next.giveUpWhen stop)
  | wait w next =>
      wait { w with ready := fun s => w.ready s || stop s } fun _ =>
        look fun s =>
          if w.ready s then (next true).giveUpWhen stop
          else if stop s then put (w.abandon s) (done none)
          else (next false).giveUpWhen stop

/-- The earlier of two deadlines. -/
def earlier : Option Nat → Option Nat → Option Nat
  | some a, some b => some (min a b)
  | some a, none => some a
  | none, b => b

/-- Do two routines side by side, and wait for both.  The first goes on first. -/
def both : Routine J S α → Routine J S β → Routine J S (α × β)
  | done a, r => r.bind fun b => done (a, b)
  | look next, r => look fun s => (next s).both r
  | put s next, r => put s (next.both r)
  | clock next, r => clock fun t => (next t).both r
  | spawn job next, r => spawn job (next.both r)
  | wait w next, r => beside w next (fun ready r => (next ready).both r) r
where
  /-- The first routine waits; let the second go on until it waits too. -/
  beside (w : Wait S) (next : Bool → Routine J S α)
      (resume : Bool → Routine J S β → Routine J S (α × β)) :
      Routine J S β → Routine J S (α × β)
    | done b => wait w fun ready => (next ready).bind fun a => done (a, b)
    | look more => look fun s => beside w next resume (more s)
    | put s more => put s (beside w next resume more)
    | clock more => clock fun t => beside w next resume (more t)
    | spawn job more => spawn job (beside w next resume more)
    | wait v more =>
        wait
          { ready := fun s => w.ready s || v.ready s
            deadline := earlier w.deadline v.deadline
            abandon := fun s => v.abandon (w.abandon s) }
          fun _ => look fun s => clock fun time =>
            if w.isOver s time then resume (w.ready s) (wait v more)
            else beside w next resume (more (v.ready s))

/-- Do routines side by side, and wait for all of them. -/
def all : List (Routine J S α) → Routine J S (List α)
  | [] => done []
  | r :: rs => (r.both (all rs)).bind fun (a, as) => done (a :: as)

/-- Do a routine on a part of a larger state. -/
def within (view : T → S) (replace : S → T → T) : Routine J S α → Routine J T α
  | done a => done a
  | look next => look fun t => (next (view t)).within view replace
  | put s next => look fun t => put (replace s t) (next.within view replace)
  | clock next => clock fun time => (next time).within view replace
  | spawn job next => spawn job (next.within view replace)
  | wait w next =>
      wait
        { ready := fun t => w.ready (view t)
          deadline := w.deadline
          abandon := fun t => replace (w.abandon (view t)) t }
        fun r => (next r).within view replace

/-- Set other jobs going in the place of a routine's own. -/
def mapJobs {K : Type} (f : J → K) : Routine J S α → Routine K S α
  | done a => done a
  | look next => look fun s => (next s).mapJobs f
  | put s next => put s (next.mapJobs f)
  | clock next => clock fun t => (next t).mapJobs f
  | spawn job next => spawn (f job) (next.mapJobs f)
  | wait w next => wait w fun r => (next r).mapJobs f

/-- Let a routine go on until it has to wait: the state and the jobs it leaves, and
what is left to do. -/
def advance (time : Nat) : Routine J S α → S → S × List J × Routine J S α
  | done a, s => (s, [], done a)
  | look next, s => (next s).advance time s
  | put s next, _ => next.advance time s
  | clock next, s => (next time).advance time s
  | spawn job next, s =>
      let (s, jobs, rest) := next.advance time s
      (s, job :: jobs, rest)
  | wait w next, s =>
      if w.isOver s time then (next (w.ready s)).advance time s else (s, [], wait w next)

end Routine

end RemoteConsole
