/-
What one act does among calls on the two ends of a pipe, told by where the calls wait, and
what follows for all runs.
-/
import Mathlib.Data.List.InsertIdx
import RemoteConsole.Proofs.Network.Lines

namespace RemoteConsole.Network

/-- Whether an act makes no call but those that are allowed. -/
def Act.Keeps (allowed : ChannelId → Channel.Call → Prop) : Act → Prop
  | .call c made => allowed c made
  | .goOn _ | .pass _ => True

namespace Crowd

/-- The calls of a crowd with the work that each has left to do. -/
def routines (s : Crowd Phase) : Calls where
  network := s.network
  time := s.time
  underway := s.underway.map fun w => (w.1, w.2.routine w.1)
  turns := s.turns
  returned := s.returned

/-- What one act may do. -/
inductive Step (allowed : ChannelId → Channel.Call → Prop) (s : Crowd Phase) :
    Crowd Phase → Prop where
  | idle : Step allowed s s
  | pass (time : Nat) : Step allowed s { s with time := s.time + time }
  | enters {v n' course} (hallowed : allowed v.channel v.call)
      (hticket : v.ticket = s.network.tickets) (h : v.Begins s.network n' course) :
      Step allowed s ((s.enter v (course.arrive v n', course)).noteTurns s.network)
  | proceeds {before after v p n' course} (hs : s.underway = before ++ (v, p) :: after)
      (h : v.Goes s.time s.network p n' course) :
      Step allowed s
        ((s.proceed before.length v (course.depart v p n', course)).noteTurns s.network)

variable {s s' : Crowd Phase} {v : Visit} {n : Network} {p : Phase}
  {before after : List Waiter} {a b : ChannelId} {allowed : ChannelId → Channel.Call → Prop}

theorem routines_enter (course : Course Phase) :
    (s.enter v (n, course)).routines = s.routines.enter v (n, course.routine v) := by
  cases course with
  | returned answer => rfl
  | waits p => simp [enter, routines, Course.routine]

theorem routines_proceed (place : Nat) (course : Course Phase) :
    (s.proceed place v (n, course)).routines =
      s.routines.proceed place v (n, course.routine v) := by
  cases course with
  | returned answer => simp [proceed, routines, Course.routine, List.eraseIdx_map]
  | waits p => simp [proceed, routines, Course.routine, List.map_set]

theorem routines_noteTurns (n : Network) :
    (s.noteTurns n).routines = s.routines.noteTurns n := by
  simp only [noteTurns, routines, List.map_map]
  rfl

theorem proceed_returned (hs : s.underway = before ++ (v, p) :: after) (answer : Answer) :
    s.proceed before.length v (n, .returned answer) =
      { s with
        network := n
        underway := before ++ after
        returned := s.returned ++ [(v, answer)] } := by
  simp [proceed, hs, List.eraseIdx_append_of_length_le]

theorem proceed_waits (hs : s.underway = before ++ (v, p) :: after) (p' : Phase) :
    s.proceed before.length v (n, .waits p') =
      { s with network := n, underway := before ++ (v, p') :: after } := by
  simp [proceed, hs]

@[simp] theorem network_enter (course : Course Phase) :
    (s.enter v (n, course)).network = n := by
  cases course with
  | returned answer => rfl
  | waits p => rfl

@[simp] theorem network_proceed (place : Nat) (course : Course Phase) :
    (s.proceed place v (n, course)).network = n := by
  cases course with
  | returned answer => rfl
  | waits p => rfl

@[simp] theorem network_noteTurns (n : Network) : (s.noteTurns n).network = s.network :=
  rfl

/-- Each step keeps the lines in order. -/
theorem Step.seated (h : Step allowed s s') (hs : s.network.Seated a b s.underway)
    (hallowed : ∀ c call, allowed c call → c = a ∨ c = b) :
    s'.network.Seated a b s'.underway := by
  cases h with
  | idle => exact hs
  | pass time => exact hs
  | @enters v n' course hcall hticket hbegins =>
      have hkeeps := hbegins.keepsLocks
      cases course with
      | returned answer => exact hs.keep hkeeps
      | waits p =>
          exact (hs.keep hkeeps).arrive (hbegins.proper (hallowed _ _ hcall))
            (hticket.trans hkeeps.tickets.symm)
  | @proceeds before after v p n' course hunderway hgoes =>
      have hn' := hs.keep hgoes.keepsLocks
      rw [hunderway] at hn'
      cases course with
      | returned answer =>
          rw [proceed_returned hunderway]
          exact hn'.depart answer
      | waits p' =>
          rw [proceed_waits hunderway]
          obtain ⟨hv, hwrites⟩ := hgoes.proper (hs.proper (v, p) (by simp [hunderway]))
          exact hn'.move hv hwrites

/-- A call is made among calls. -/
theorem exists_begins (hs : s.network.Seated a b s.underway) {c : ChannelId}
    (hc : c = a ∨ c = b) (call : Channel.Call) :
    ∃ n' course, (⟨c, call, s.network.tickets⟩ : Visit).Begins s.network n' course ∧
      s.routines.act (.call c call) =
        ((s.enter ⟨c, call, s.network.tickets⟩
          (course.arrive ⟨c, call, s.network.tickets⟩ n', course)).noteTurns
            s.network).routines := by
  obtain ⟨e, he⟩ := hs.isEnd hc
  obtain ⟨n', course, hbegins, hcourse⟩ :=
    begins (v := ⟨c, call, s.network.tickets⟩) s.time he rfl
  refine ⟨n', course, hbegins, ?_⟩
  rw [routines_noteTurns, routines_enter, ← hcourse]
  rfl

/-- What is done among calls is a step of theirs. -/
theorem exists_step (hs : s.network.Seated a b s.underway)
    (hallowed : ∀ c call, allowed c call → c = a ∨ c = b) {act : Act} (hact : act.Keeps allowed) :
    ∃ s', Step allowed s s' ∧ s.routines.act act = s'.routines := by
  cases act with
  | call c call =>
      obtain ⟨n', course, hbegins, heq⟩ := exists_begins hs (hallowed c call hact) call
      exact ⟨_, .enters (v := ⟨c, call, s.network.tickets⟩) hact rfl hbegins, heq⟩
  | goOn place =>
      cases hplace : s.underway[place]? with
      | none =>
          refine ⟨s, .idle, ?_⟩
          simp [Calls.act, routines, hplace]
      | some w =>
          obtain ⟨v, p⟩ := w
          obtain ⟨hlt, hget⟩ := List.getElem?_eq_some_iff.mp hplace
          have hsplit : s.underway =
              s.underway.take place ++ (v, p) :: s.underway.drop (place + 1) := by
            rw [← hget, ← List.drop_eq_getElem_cons hlt, List.take_append_drop]
          have hlength : (s.underway.take place).length = place :=
            List.length_take_of_le (Nat.le_of_lt hlt)
          have hp : Proper a b (v, p) := hs.proper (v, p) (List.mem_of_getElem? hplace)
          obtain ⟨n', course, hgoes, hcourse⟩ :=
            goes (v := v) (n := s.network) s.time hp.sound
          refine ⟨_, .proceeds hsplit hgoes, ?_⟩
          rw [routines_noteTurns, routines_proceed, hlength, ← hcourse]
          simp [Calls.act, routines, hplace]
  | pass time => exact ⟨_, .pass time, rfl⟩

/-- What every step keeps up holds of every run. -/
theorem run_induction {I : Crowd Phase → Prop}
    (hseated : ∀ s, I s → s.network.Seated a b s.underway)
    (hallowed : ∀ c call, allowed c call → c = a ∨ c = b)
    (hstep : ∀ s s', I s → Step allowed s s' → I s') (hs : I s) {acts : List Act}
    (hacts : ∀ act ∈ acts, act.Keeps allowed) :
    ∃ s', I s' ∧ s.routines.run acts = s'.routines := by
  induction acts generalizing s with
  | nil => exact ⟨s, hs, rfl⟩
  | cons act acts ih =>
      obtain ⟨hact, hacts⟩ := List.forall_mem_cons.mp hacts
      obtain ⟨s₁, hs₁, heq⟩ := exists_step (hseated s hs) hallowed hact
      obtain ⟨s₂, hs₂, hrun⟩ := ih (hstep s s₁ hs hs₁) hacts
      refine ⟨s₂, hs₂, ?_⟩
      rw [← hrun, Calls.run, List.foldl_cons, heq]
      rfl

/-- No calls as yet. -/
def on (n : Network) : Crowd Phase :=
  { network := n }

theorem seated_on (h : n.Fresh a b) : n.Seated a b (on n).underway where
  joined := h.joined
  proper := List.forall_mem_nil _
  ordered := List.Pairwise.nil
  given := List.forall_mem_nil _
  lines c hc k := by
    rcases hc with rfl | rfl
    · exact h.free k
    · exact h.freeFar k

end Crowd

end RemoteConsole.Network
