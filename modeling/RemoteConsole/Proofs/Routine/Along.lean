/-
What holds along a routine, from its first step to its last, while others act on the
same state whenever it waits.
-/
import Mathlib.Tactic.Common
import RemoteConsole.Routine.Basic

namespace RemoteConsole.Routine

variable {J S T α β : Type}

/-- All along a routine that begins in a state, `G` holds of every change of the state: of
its own, and of what others bring about while it waits, which is anything that `R` allows.
At the end `Q` holds of the result and the state. -/
def Along (R G : S → S → Prop) (Q : α → S → Prop) : Routine J S α → S → Prop
  | done a, s => Q a s
  | look next, s => Along R G Q (next s) s
  | put s' next, s => G s s' ∧ Along R G Q next s'
  | clock next, s => ∀ time, Along R G Q (next time) s
  | spawn _ next, s => Along R G Q next s
  | wait _ next, s => ∀ s', R s s' → G s s' ∧ ∀ ready, Along R G Q (next ready) s'

section

variable {R G G' : S → S → Prop} {Q Q' : α → S → Prop} {r : Routine J S α} {s : S}

theorem Along.mono (hG : ∀ s s', G s s' → G' s s') (hQ : ∀ a s, Q a s → Q' a s)
    (h : Along R G Q r s) : Along R G' Q' r s := by
  induction r generalizing s with
  | done a => exact hQ a s h
  | look next ih => exact ih s h
  | put s' next ih => exact ⟨hG _ _ h.1, ih h.2⟩
  | clock next ih => exact fun time => ih time (h time)
  | spawn job next ih => exact ih h
  | wait w next ih =>
      exact fun s' hs' => ⟨hG _ _ (h s' hs').1, fun ready => ih ready ((h s' hs').2 ready)⟩

theorem Along.bind {f : α → Routine J S β} {P : β → S → Prop} (h : Along R G Q r s)
    (hf : ∀ a s, Q a s → Along R G P (f a) s) : Along R G P (r >>= f) s := by
  change Along R G P (r.bind f) s
  induction r generalizing s with
  | done a => exact hf a s h
  | look next ih => exact ih s h
  | put s' next ih => exact ⟨h.1, ih h.2⟩
  | clock next ih => exact fun time => ih time (h time)
  | spawn job next ih => exact ih h
  | wait w next ih => exact fun s' hs' => ⟨(h s' hs').1, fun ready => ih ready ((h s' hs').2 ready)⟩

/-- What every change keeps up holds all along. -/
theorem Along.keeps {I : S → Prop} (hI : ∀ s s', I s → G s s' → I s') (h : Along R G Q r s)
    (hs : I s) : Along R (fun _ => I) (fun a s' => Q a s' ∧ I s') r s := by
  induction r generalizing s with
  | done a => exact ⟨h, hs⟩
  | look next ih => exact ih s h hs
  | put s' next ih => exact ⟨hI _ _ hs h.1, ih h.2 (hI _ _ hs h.1)⟩
  | clock next ih => exact fun time => ih time (h time) hs
  | spawn job next ih => exact ih h hs
  | wait w next ih =>
      intro s' hs'
      have hnext := hI _ _ hs (h s' hs').1
      exact ⟨hnext, fun ready => ih ready ((h s' hs').2 ready) hnext⟩

/-- Where a routine has to wait, or has ended, it has come by changes only. -/
theorem Along.advance {I : S → Prop} (h : Along R (fun _ => I) Q r s) (hs : I s)
    (hR : ∀ s, R s s) (time : Nat) : I (r.advance time s).1 := by
  induction r generalizing s with
  | done a => exact hs
  | look next ih => exact ih s h hs
  | put s' next ih => exact ih h.2 h.1
  | clock next ih => exact ih time (h time) hs
  | spawn job next ih => exact ih h hs
  | wait w next ih =>
      unfold Routine.advance
      split
      · exact ih _ ((h s (hR s)).2 _) hs
      · exact hs

/-- A routine that comes to its end without a wait is followed by the next at once. -/
theorem advance_bind {f : α → Routine J S β} {time : Nat} {s s' : S} {jobs : List J} {a : α}
    (h : r.advance time s = (s', jobs, .done a)) :
    (r >>= f).advance time s =
      (((f a).advance time s').1, jobs ++ ((f a).advance time s').2.1,
        ((f a).advance time s').2.2) := by
  change (r.bind f).advance time s = _
  induction r generalizing s jobs with
  | done b =>
      cases h
      rfl
  | look next ih => exact ih s h
  | put t next ih => exact ih h
  | clock next ih => exact ih time h
  | spawn job next ih =>
      rcases hnext : next.advance time s with ⟨t, more, rest⟩
      simp only [Routine.advance, hnext] at h
      cases h
      simp only [Routine.bind, Routine.advance, ih hnext]
      rfl
  | wait w next ih =>
      simp only [Routine.advance, Routine.bind] at h ⊢
      split at h
      next hover =>
        rw [if_pos hover]
        exact ih _ h
      next => cases h

end

/-! Routines on a part of the state. -/

section

variable {view : T → S} {replace : S → T → T}

theorem Along.within {R G : S → S → Prop} {R' G' : T → T → Prop} {Q : α → S → Prop}
    {r : Routine J S α} {t : T} (hview : ∀ s t, view (replace s t) = s)
    (hR : ∀ t t', R' t t' → R (view t) (view t') ∧ (G (view t) (view t') → G' t t'))
    (hG : ∀ s t, G (view t) s → G' t (replace s t)) (h : Along R G Q r (view t)) :
    Along R' G' (fun a t => Q a (view t)) (r.within view replace) t := by
  induction r generalizing t with
  | done a => exact h
  | look next ih => exact ih (view t) h
  | put s next ih => exact ⟨hG s t h.1, ih (by rw [hview]; exact h.2)⟩
  | clock next ih => exact fun time => ih time (h time)
  | spawn job next ih => exact ih h
  | wait w next ih =>
      intro t' ht'
      obtain ⟨hchange, hnext⟩ := h (view t') (hR t t' ht').1
      exact ⟨(hR t t' ht').2 hchange, fun ready => ih ready (hnext ready)⟩

end

/-! Routines that do no more than others may. -/

/-- Each change that a routine makes is one that others may make. -/
def Follows (R : S → S → Prop) (α : Type) (r : Routine J S α) : Prop :=
  ∀ s, Along R R (fun _ _ => True) r s

section

variable {R : S → S → Prop}

theorem Follows.pure (a : α) : Follows R α (pure a : Routine J S α) :=
  fun _ => trivial

theorem Follows.bind {r : Routine J S α} {f : α → Routine J S β} (h : Follows R α r)
    (hf : ∀ a, Follows R β (f a)) : Follows R β (r >>= f) :=
  fun s => (h s).bind fun a s _ => hf a s

theorem follows_get : Follows R S (get : Routine J S S) :=
  fun _ => trivial

theorem follows_now : Follows R Nat (now : Routine J S Nat) :=
  fun _ _ => trivial

theorem follows_modify {f : S → S} (hf : ∀ s, R s (f s)) :
    Follows R Unit (modify f : Routine J S Unit) :=
  fun s => ⟨hf s, trivial⟩

theorem follows_modifyGet {f : S → α × S} (hf : ∀ s, R s (f s).2) :
    Follows R α (modifyGet f : Routine J S α) :=
  fun s => ⟨hf s, trivial⟩

theorem follows_await (w : Wait S) : Follows R Bool (await w : Routine J S Bool) :=
  fun _ _ hs => ⟨hs, fun _ => trivial⟩

theorem follows_sleep (time : Nat) : Follows R Unit (sleep time : Routine J S Unit) :=
  fun _ _ _ hs => ⟨hs, fun _ => trivial⟩

/-- Whatever is done to a part that others may replace. -/
theorem follows_within {view : S → T} {replace : T → S → S} (h : ∀ t s, R s (replace t s))
    (r : Routine J T α) : Follows R α (r.within view replace) := by
  induction r with
  | done a => exact fun _ => trivial
  | look next ih => exact fun s => ih (view s) s
  | put t next ih => exact fun s => ⟨h t s, ih _⟩
  | clock next ih => exact fun s time => ih time s
  | spawn job next ih => exact ih
  | wait w next ih => exact fun s s' hs' => ⟨hs', fun ready => ih ready s'⟩

variable [IsTrans S R]

/-- While a routine waits, another goes on. -/
theorem along_beside {w : Wait S} {next : Bool → Routine J S α}
    {resume : Bool → Routine J S β → Routine J S (α × β)} {r : Routine J S β} {s : S}
    (hnext : ∀ s', R s s' → ∀ ready, Along R R (fun _ _ => True) (next ready) s')
    (hresume : ∀ ready r s, Along R R (fun _ _ => True) (next ready) s →
      (∀ s', R s s' → Along R R (fun _ _ => True) r s') →
        Along R R (fun _ _ => True) (resume ready r) s)
    (hr : Along R R (fun _ _ => True) r s) :
    Along R R (fun _ _ => True) (both.beside w next resume r) s := by
  induction r generalizing s with
  | done b =>
      exact fun s' hs' => ⟨hs', fun ready => (hnext s' hs' ready).bind fun _ _ _ => trivial⟩
  | look more ih => exact ih s hnext hr
  | put s' more ih => exact ⟨hr.1, ih (fun t ht => hnext t (IsTrans.trans _ _ _ hr.1 ht)) hr.2⟩
  | clock more ih => exact fun time => ih time hnext (hr time)
  | spawn job more ih => exact ih hnext hr
  | wait v more ih =>
      -- Both wait.  One of them goes on, and the other still waits in whatever state it finds.
      intro s' hs'
      refine ⟨hs', fun _ time => ?_⟩
      dsimp only
      split
      · exact hresume _ _ _ (hnext s' hs' _) fun t ht t' ht' =>
          ⟨ht', (hr t' (IsTrans.trans _ _ _ hs' (IsTrans.trans _ _ _ ht ht'))).2⟩
      · exact ih _ (fun t ht => hnext t (IsTrans.trans _ _ _ hs' ht)) ((hr s' hs').2 _)

variable [Std.Refl R]

theorem along_both {r : Routine J S α} {r' : Routine J S β} {s : S}
    (hr : Along R R (fun _ _ => True) r s)
    (hr' : ∀ s', R s s' → Along R R (fun _ _ => True) r' s') :
    Along R R (fun _ _ => True) (r.both r') s := by
  induction r generalizing r' s with
  | done a => exact (hr' s (Std.Refl.refl s)).bind fun _ _ _ => trivial
  | look next ih => exact ih s hr hr'
  | put s' next ih => exact ⟨hr.1, ih hr.2 fun t ht => hr' t (IsTrans.trans _ _ _ hr.1 ht)⟩
  | clock next ih => exact fun time => ih time (hr time) hr'
  | spawn job next ih => exact ih hr hr'
  | wait w next ih =>
      exact along_beside (fun s' hs' => (hr s' hs').2)
        (fun ready r s hnext hr => ih ready hnext hr) (hr' s (Std.Refl.refl s))

theorem Follows.both {r : Routine J S α} {r' : Routine J S β} (hr : Follows R α r)
    (hr' : Follows R β r') : Follows R (α × β) (r.both r') :=
  fun s => along_both (hr s) fun s' _ => hr' s'

theorem follows_all {rs : List (Routine J S α)} (hrs : ∀ r ∈ rs, Follows R α r) :
    Follows R (List α) (all rs) := by
  induction rs with
  | nil => exact Follows.pure []
  | cons r rs ih =>
      obtain ⟨hr, hrs⟩ := List.forall_mem_cons.mp hrs
      exact (hr.both (ih hrs)).bind fun _ => Follows.pure _

end

end RemoteConsole.Routine
