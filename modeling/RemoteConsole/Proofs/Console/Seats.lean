/-
What sessions of a console leave to each other: each session's stage is its own.
Whatever is done for another session, or by the console itself, a session that is known
stays known and in its stage.
-/
import RemoteConsole.Console.Work
import RemoteConsole.Proofs.Routine.Along
import RemoteConsole.Proofs.Session.Commands

namespace RemoteConsole.Console

open Session (Id Host)
open Routine (Along Follows)

/-- A session that is known stays known, in the same stage. -/
def Leaves (i : Id) (c c' : Console) : Prop :=
  c.knows i = true → c'.knows i = true ∧ (c'.sessionState i).stage = (c.sessionState i).stage

variable {i : Id}

instance : Std.Refl (Leaves i) where
  refl _ hi := ⟨hi, rfl⟩

instance : IsTrans Console (Leaves i) where
  trans _ _ _ h h' hi :=
    have ⟨hknown, hstage⟩ := h hi
    have ⟨hknown', hstage'⟩ := h' hknown
    ⟨hknown', hstage'.trans hstage⟩

theorem getElem?_seat {c : Console} (hi : c.knows i = true) :
    c.seats[seatIndex i]? = some (c.seat i) := by
  simp only [knows, Bool.and_eq_true, decide_eq_true_eq] at hi
  have hlt : seatIndex i < c.seats.size := by
    unfold seatIndex
    omega
  simp [seat, hlt]

theorem leaves_of_seats {c c' : Console} (h : c'.seats = c.seats) : Leaves i c c' := by
  intro hi
  have hi' : c'.knows i = true := by rwa [knows, h]
  have hseat := getElem?_seat hi'
  rw [h, getElem?_seat hi, Option.some_inj] at hseat
  exact ⟨hi', by rw [sessionState, sessionState, hseat]⟩

theorem knows_setSessionState {c : Console} (hi : c.knows i = true) (j : Id)
    (state : Session.State) : (c.setSessionState j state).knows i = true := by
  simpa [knows, setSessionState] using hi

theorem sessionState_setSessionState {c : Console} (hi : c.knows i = true) (j : Id)
    (state : Session.State) : (c.setSessionState j state).sessionState i =
      if seatIndex j = seatIndex i then state else c.sessionState i := by
  have hseat := getElem?_seat (knows_setSessionState hi j state)
  simp only [setSessionState, Array.getElem?_modify, getElem?_seat hi] at hseat
  rw [sessionState, sessionState]
  split at hseat
  next hsame =>
    rw [if_pos hsame, setSessionState, ← Option.some_inj.mp hseat]
  next hother =>
    rw [if_neg hother, setSessionState, ← Option.some_inj.mp hseat]

/-- A session's memory may change if its stage does not. -/
theorem leaves_setSessionState {c : Console} {j : Id} {state : Session.State}
    (h : seatIndex j = seatIndex i → state.stage = (c.sessionState i).stage) :
    Leaves i c (c.setSessionState j state) := by
  intro hi
  refine ⟨knows_setSessionState hi j state, ?_⟩
  rw [sessionState_setSessionState hi]
  split
  next hsame => exact h hsame
  next => rfl

theorem leaves_setNetwork (n : Network) (c : Console) : Leaves i c (setNetwork n c) :=
  leaves_of_seats rfl

theorem leaves_collect (c : Console) : Leaves i c c.collect.2 := by
  refine leaves_of_seats ?_
  unfold collect
  dsimp only
  split <;> rfl

/-! Work at a console that is not that of one session. -/

theorem follows_joins : Session.Joins (Follows (Leaves i) (J := Job)) where
  pure := Follows.pure
  bind := Follows.bind

theorem follows_onNetwork {α : Type} (r : Network.Work Job α) :
    Follows (Leaves i) α (onNetwork r) :=
  Routine.follows_within leaves_setNetwork r

theorem follows_awaitEnd (j : Id) : Follows (Leaves i) Unit (awaitEnd j) := by
  refine Routine.follows_get.bind fun c => ?_
  split
  · exact Routine.follows_now.bind fun _ => (Routine.follows_await _).bind fun _ => .pure _
  · exact .pure _

theorem follows_stop (j : Id) (caller : Option Id) : Follows (Leaves i) Unit (stop j caller) := by
  refine Routine.follows_get.bind fun c => (follows_onNetwork _).bind fun _ => ?_
  change Follows _ _ (if decide (caller = some j) then pure () else awaitEnd j)
  split
  · exact .pure _
  · exact follows_awaitEnd j

theorem follows_remove (j : Id) (caller : Option Id) :
    Follows (Leaves i) _ (remove j caller) := by
  refine (Routine.follows_modifyGet fun _ => ?_).bind fun tracked => ?_
  · exact leaves_of_seats rfl
  cases tracked with
  | false => exact .pure _
  | true =>
      refine (follows_stop j caller).bind fun _ => ?_
      refine (Routine.follows_modify fun _ => ?_).bind fun _ => .pure _
      exact leaves_of_seats rfl

theorem follows_writeLine (j : Id) (text : String) :
    Follows (Leaves i) _ (writeLine j text) :=
  Routine.follows_get.bind fun _ => follows_joins.onChannel (follows_onNetwork _)

theorem follows_broadcast (text : String) : Follows (Leaves i) _ (broadcast text) := by
  refine Routine.follows_get.bind fun c => ?_
  refine (Routine.follows_all ?_).bind fun _ => .pure _
  simp only [List.mem_map, forall_exists_index, and_imp, forall_apply_eq_imp_iff₂]
  exact fun j _ => (follows_writeLine j text).bind fun _ => .pure _

/-! The work of sessions. -/

/-- Nothing that a session does changes the stage of another, nor its own but what does so
on purpose. -/
theorem keeps_follows (c : Console) {j : Id} (hj : j = i ∨ seatIndex j ≠ seatIndex i) :
    (c.host j).Keeps (fun _ => True) (Follows (Leaves i)) where
  toJoins := follows_joins
  write _ := follows_onNetwork _
  close := follows_onNetwork _
  setLocalEcho _ := follows_onNetwork _
  isOpen := follows_onNetwork _
  state hf c := hf (c.sessionState j) trivial c
  change f hf c := by
    refine ⟨leaves_setSessionState fun hsame => ?_, trivial⟩
    rcases hj with rfl | hj
    · exact hf _
    · exact absurd hsame hj
  registry := Routine.follows_get.bind fun _ => .pure _
  setRegistry _ := Routine.follows_modify fun _ => leaves_of_seats rfl
  note _ := Routine.follows_modify fun _ => leaves_of_seats rfl
  count _ := Routine.follows_modify fun _ => leaves_of_seats rfl
  awaitEnd := .pure _
  sleep _ := Routine.follows_sleep _
  broadcast _ := (follows_broadcast _).bind fun _ => .pure _
  collect := Routine.follows_modifyGet leaves_collect
  removeSession _ := follows_remove _ _

theorem follows_read (c : Console) (j : Id) (count : Nat) :
    Follows (Leaves i) _ ((c.host j).channel.read count) :=
  follows_onNetwork _

theorem follows_setStage (c : Console) {j : Id} (hj : seatIndex j ≠ seatIndex i)
    (stage : Session.Stage) : Follows (Leaves i) _ ((c.host j).setStage stage) :=
  Routine.follows_modify fun _ => leaves_setSessionState fun hsame => absurd hsame hj

theorem follows_live (c : Console) {j : Id} (hj : seatIndex j ≠ seatIndex i) (limit : Nat) :
    Follows (Leaves i) _ (Session.live (c.host j) limit) := by
  have hok := keeps_follows c (Or.inr hj)
  have hadmits : (c.host j).Admits (Follows (Leaves i)) :=
    ⟨fun _ _ => .pure _, fun stage _ => follows_setStage c hj stage⟩
  have hrun (inner : Session.Inner Work) (hi : inner.Keeps (Follows (Leaves i))) :=
    hok.runCommand (follows_setStage c hj) hi
  have htake (inner : Session.Inner Work) := hok.takeLine_of_admits hadmits (i := inner)
  have hinner := hok.inner hrun htake c.bounds.nesting
  exact hok.live (follows_read c j) (fun b => hok.pressKey b (htake _ (hrun _ hinner))) limit

/-- The session whose job it is. -/
def Job.session? : Job → Option Id
  | session i | visit i => some i
  | collector _ _ => none

theorem follows_collectEvery (number period ticks due : Nat) :
    Follows (Leaves i) _ (collectEvery number period ticks due) := by
  induction ticks generalizing due with
  | zero => exact .pure _
  | succ ticks ih =>
      refine (Routine.follows_await _).bind fun replaced => ?_
      split
      · exact .pure _
      · exact (Routine.follows_modifyGet leaves_collect).bind fun _ => ih _

/-- What goes on at a console by itself leaves a session alone unless it is its own job. -/
theorem follows_job {job : Job} (hjob : ∀ j ∈ job.session?, seatIndex j ≠ seatIndex i) :
    Follows (Leaves i) _ job.routine := by
  cases job with
  | session j => exact Routine.follows_get.bind fun c => follows_live c (hjob j rfl) _
  | visit j =>
      refine Routine.follows_get.bind fun c => (follows_live c (hjob j rfl) _).bind fun _ => ?_
      exact (follows_remove j none).bind fun _ => .pure _
  | collector number period =>
      unfold Job.routine
      dsimp only
      split
      · exact .pure _
      · refine Routine.follows_get.bind fun c => ?_
        exact Routine.follows_now.bind fun now => follows_collectEvery number period c.ticks now

end RemoteConsole.Console
