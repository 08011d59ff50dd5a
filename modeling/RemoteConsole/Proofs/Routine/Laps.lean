/-
Routines that others may interrupt wherever they wait, be the wait over or not.  A lap
takes a routine from one wait to the next; the scheduler does as many of them as it can
at one stroke.
-/
import Mathlib.Tactic.Common
import RemoteConsole.Routine.Basic

namespace RemoteConsole.Routine

variable {S α β : Type}

/-- Let a routine without jobs go on to its next wait. -/
def lap (time : Nat) : Routine Empty S α → S → S × Routine Empty S α
  | done a, s => (s, done a)
  | look next, s => (next s).lap time s
  | put s next, _ => next.lap time s
  | clock next, s => (next time).lap time s
  | spawn job _, _ => nomatch job
  | wait w next, s => (s, wait w next)

/-- Let a routine that waits go on to its next wait, if it may. -/
def goOn (time : Nat) : Routine Empty S α → S → S × Routine Empty S α
  | wait w next, s =>
      if w.isOver s time then (next (w.ready s)).lap time s else (s, wait w next)
  | r, s => (s, r)

variable {time : Nat}

section

variable (f : α → Routine Empty S β) (s : S)

@[simp] theorem lap_get_bind (f : S → Routine Empty S β) :
    (get >>= f).lap time s = (f s).lap time s :=
  rfl

@[simp] theorem lap_modifyGet_bind (g : S → α × S) :
    (modifyGet g >>= f).lap time s = (f (g s).1).lap time (g s).2 :=
  rfl

@[simp] theorem lap_await_bind (w : Wait S) (f : Bool → Routine Empty S β) :
    (await w >>= f).lap time s = (s, await w >>= f) :=
  rfl

theorem goOn_await_bind (w : Wait S) (f : Bool → Routine Empty S β) :
    (await w >>= f).goOn time s =
      if w.isOver s time then (f (w.ready s)).lap time s else (s, await w >>= f) :=
  rfl

end

section

variable {J : Type} (undo : S → S)

@[simp] theorem onAbandon_modifyGet (g : S → α × S) :
    (modifyGet g : Routine J S α).onAbandon undo = modifyGet g :=
  rfl

@[simp] theorem onAbandon_bind (r : Routine J S α) (f : α → Routine J S β) :
    (r >>= f).onAbandon undo = r.onAbandon undo >>= fun a => (f a).onAbandon undo := by
  change (r.bind f).onAbandon undo = (r.onAbandon undo).bind _
  induction r with
  | done a => rfl
  | look next ih => simp only [Routine.bind, onAbandon, ih]
  | put s next ih => simp only [Routine.bind, onAbandon, ih]
  | clock next ih => simp only [Routine.bind, onAbandon, ih]
  | spawn job next ih => simp only [Routine.bind, onAbandon, ih]
  | wait w next ih => simp only [Routine.bind, onAbandon, ih]

@[simp] theorem onAbandon_await (w : Wait S) :
    (await w : Routine J S Bool).onAbandon undo =
      await { w with abandon := fun s => undo (w.abandon s) } :=
  rfl

end

/-- What the scheduler does at one stroke, it does lap by lap. -/
theorem advance_lap (r : Routine Empty S α) (s : S) :
    (r.lap time s).2.advance time (r.lap time s).1 = r.advance time s := by
  induction r generalizing s with
  | done a => rfl
  | look next ih => exact ih s s
  | put s' next ih => exact ih s'
  | clock next ih => exact ih time s
  | spawn job _ _ => exact job.elim
  | wait w next _ => rfl

theorem advance_goOn (r : Routine Empty S α) (s : S) :
    (r.goOn time s).2.advance time (r.goOn time s).1 = r.advance time s := by
  cases r with
  | wait w next =>
      simp only [goOn]
      split
      next hover => rw [advance_lap, advance, if_pos hover]
      next => rfl
  | _ => rfl

end RemoteConsole.Routine
