/-
What a listener knows of the options.  Every switch that the peer has a part in is
reported when it happens; the one that is not is our own withdrawal from an option
that is on.
-/
import RemoteConsole.Proofs.Telnet.Calls
import RemoteConsole.Proofs.Telnet.Heeding
import Mathlib.Data.List.Induction

namespace RemoteConsole.Telnet

/-- What an event reports of one side of an option. -/
def Event.switch? (o : OptionCode) (side : Side) : Event → Option Bool
  | .switched p s on => if p = o ∧ s = side then some on else none
  | _ => none

namespace Output

/-- The switches of one side of an option that are reported. -/
def reports (out : Output) (o : OptionCode) (side : Side) : List Bool :=
  out.events.filterMap (Event.switch? o side)

/-- How one side of an option was last reported, or was before. -/
def last (out : Output) (o : OptionCode) (side : Side) (before : Bool) : Bool :=
  (out.reports o side).getLast?.getD before

variable (a b : Output) (o : OptionCode) (side : Side) (before : Bool)

@[simp] theorem reports_append :
    (a ++ b).reports o side = a.reports o side ++ b.reports o side := by
  simp [reports]

theorem last_append : (a ++ b).last o side before = b.last o side (a.last o side before) := by
  unfold last
  rw [reports_append, List.getLast?_append]
  cases (b.reports o side).getLast? <;> rfl

theorem last_of_no_events (h : a.events = []) : a.last o side before = before := by
  simp [last, reports, h]

theorem last_of_nil (h : a.reports o side = []) : a.last o side before = before := by
  simp [last, h]

/-- Once something was reported, what was before does not matter. -/
theorem last_of_ne_nil (h : a.reports o side ≠ []) (other : Bool) :
    a.last o side before = a.last o side other := by
  unfold last
  rw [List.getLast?_eq_some_getLast h]
  rfl

end Output

namespace Engine

variable {o : OptionCode}

/-! Decoding. -/

/-- A switch is reported as it happens. -/
theorem last_hear (e : Engine) (s : Side) (p : OptionCode) (enable : Bool) (o : OptionCode)
    (side : Side) :
    (e.hear s p enable).2.last o side (e.options.isOn o side) =
      (e.hear s p enable).1.options.isOn o side := by
  by_cases hself : side = s ∧ o = p
  · obtain ⟨rfl, rfl⟩ := hself
    rw [hear_eq]
    dsimp only
    split
    next hsame =>
        rw [Output.last_of_no_events _ _ _ _ rfl]
        exact hsame.symm
    next => simp [Output.last, Output.reports, Event.switch?]
  · have hstanding : (e.hear s p enable).1.options.isOn o side = e.options.isOn o side := by
      rw [fst_hear]
      exact congrArg Standing.isOn (OptionTable.standing_step_of_ne _ _ _ _ hself)
    have hreports : (e.hear s p enable).2.reports o side = [] := by
      have hne : ¬(p = o ∧ s = side) := by
        rintro ⟨rfl, rfl⟩
        exact hself ⟨rfl, rfl⟩
      rw [hear_eq]
      dsimp only
      split
      · rfl
      · simp [Output.reports, Event.switch?, hne]
    rw [hstanding, Output.last_of_nil _ _ _ _ hreports]

theorem last_onNegotiation (e : Engine) (s : Side) (p : OptionCode) (enable : Bool)
    (ho : o ≠ .timingMark) (side : Side) :
    (e.onNegotiation s p enable).2.last o side (e.options.isOn o side) =
      (e.onNegotiation s p enable).1.options.isOn o side := by
  unfold onNegotiation
  split
  next =>
      unfold hearTimingMark
      split
      · rfl
      · exact e.last_hear ..
      · exact (congrArg Standing.isOn (OptionTable.standing_reset_of_ne _ _ _ _ _ ho)).symm
  next => exact e.last_hear ..

theorem switch_onCommand (e : Engine) (c : Command) (side : Side) :
    (e.onCommand c).2.reports o side = [] := by
  unfold onCommand
  repeat' split
  all_goals simp [Output.reports, Event.switch?]

theorem switch_interpret (e : Engine) (p : OptionCode) (payload : List UInt8) (side : Side) :
    (e.interpret p payload).2.reports o side = [] := by
  unfold interpret
  repeat' split
  all_goals simp [Output.reports, Event.switch?]

theorem last_perform (e : Engine) (t : Token) (ho : o ≠ .timingMark) (side : Side) :
    (e.perform t).2.last o side (e.options.isOn o side) =
      (e.perform t).1.options.isOn o side := by
  cases t with
  | data b =>
      change (e.accept b).2.last o side _ = (e.accept b).1.options.isOn o side
      unfold accept
      repeat' split
      all_goals rfl
  | command c =>
      obtain ⟨-, hoptions, -⟩ := e.onCommand_eq c
      rw [perform, Output.last_of_nil _ _ _ _ (e.switch_onCommand c side), hoptions]
  | word s p enable => exact e.last_onNegotiation s p enable ho side
  | frame kept =>
      cases kept with
      | nil => rfl
      | cons code payload =>
          obtain ⟨-, hoptions, -⟩ := e.interpret_eq ⟨code⟩ payload
          rw [perform, Output.last_of_nil _ _ _ _ (e.switch_interpret ⟨code⟩ payload side),
            hoptions]

theorem last_performAll (e : Engine) (ts : List Token) (ho : o ≠ .timingMark) (side : Side) :
    (e.performAll ts).2.last o side (e.options.isOn o side) =
      (e.performAll ts).1.options.isOn o side := by
  induction ts generalizing e with
  | nil => rfl
  | cons t ts ih =>
      have hfirst := e.last_perform t ho side
      have hrest := ih (e.perform t).1
      rw [← hfirst] at hrest
      exact (Output.last_append _ _ _ _ _).trans hrest

/-- Decoding reports every switch. -/
theorem last_decode (e : Engine) (bytes : List UInt8) (ho : o ≠ .timingMark) (side : Side) :
    (e.decode bytes).2.last o side (e.options.isOn o side) =
      (e.decode bytes).1.options.isOn o side := by
  induction bytes generalizing e with
  | nil => rfl
  | cons b bytes ih =>
      have hfirst : (e.step b).2.last o side (e.options.isOn o side) =
          (e.step b).1.options.isOn o side := by
        rw [step_eq]
        exact last_performAll _ _ ho side
      have hrest := ih (e.step b).1
      rw [← hfirst] at hrest
      exact (Output.last_append _ _ _ _ _).trans hrest

end Engine

/-! Calls. -/

theorem Standing.isOn_wish {s : Standing} {enable : Bool}
    (h : ¬(enable = false ∧ s.isOn = true)) : (s.wish enable).1.isOn = s.isOn := by
  cases enable <;> cases s <;> first | rfl | exact absurd ⟨rfl, rfl⟩ h

namespace Engine

variable {o : OptionCode}

/-- The call asks for an option to go off that is on. -/
def Withdraws (e : Engine) (o : OptionCode) (side : Side) (c : Call) : Prop :=
  c = .request side o false ∧ e.options.isOn o side = true

/-- A withdrawal takes effect at once, and is not reported. -/
theorem Withdraws.call {e : Engine} {side : Side} {c : Call} (h : e.Withdraws o side c) :
    (e.call c).2.reports o side = [] ∧ (e.call c).1.options.isOn o side = false := by
  obtain ⟨rfl, hon⟩ := h
  refine ⟨rfl, ?_⟩
  change ((e.wished side o false).1.standing o side).isOn = false
  have hstanding : e.options.standing o side = .on := by
    simpa [OptionTable.isOn, Standing.isOn] using hon
  rw [standing_wished, hstanding]
  rfl

/-- Any other switch is reported. -/
theorem last_call (e : Engine) {c : Call} (ho : o ≠ .timingMark) (side : Side)
    (hc : ¬e.Withdraws o side c) :
    (e.call c).2.last o side (e.options.isOn o side) = (e.call c).1.options.isOn o side := by
  cases c with
  | request s p enable =>
      change e.options.isOn o side = ((e.wished s p enable).1.standing o side).isOn
      by_cases hself : side = s ∧ o = p
      · obtain ⟨rfl, rfl⟩ := hself
        rw [standing_wished, Standing.isOn_wish]
        · rfl
        · rintro ⟨rfl, hon⟩
          exact hc ⟨rfl, hon⟩
      · rw [standing_wished_of_ne e enable hself]
        rfl
  | permit s p value =>
      exact (congrArg Standing.isOn (OptionTable.standing_permit ..)).symm
  | decode bytes => exact e.last_decode bytes ho side
  | timingMark =>
      exact (congrArg Standing.isOn (OptionTable.standing_reset_of_ne _ _ _ _ _ ho)).symm
  | _ => rfl

/-- Somewhere in a run of calls an option that was on was asked to go off, and
nothing has been reported of it since. -/
def Withdrawn (e : Engine) (calls : List Call) (o : OptionCode) (side : Side) : Prop :=
  ∃ before c after, calls = before ++ c :: after ∧ (e.calls before).1.Withdraws o side c ∧
    ((e.calls (before ++ [c])).1.calls after).2.reports o side = []

theorem calls_singleton (e : Engine) (c : Call) : e.calls [c] = e.call c := by
  simp [calls]

/-- One more call withdraws, or keeps a withdrawal that it does not report on. -/
theorem withdrawn_append_singleton (e : Engine) (calls : List Call) (c : Call)
    (o : OptionCode) (side : Side) :
    e.Withdrawn (calls ++ [c]) o side ↔
      (e.calls calls).1.Withdraws o side c ∨
        e.Withdrawn calls o side ∧ ((e.calls calls).1.call c).2.reports o side = [] := by
  have hthrough : ∀ before c' after, (e.calls (before ++ c' :: after)).1 =
      ((e.calls (before ++ [c'])).1.calls after).1 := by
    intro before c' after
    rw [List.append_cons, calls_append]
  constructor
  · rintro ⟨before, c', after, heq, hwithdraws, hreports⟩
    rcases List.eq_nil_or_concat after with rfl | ⟨after, last, rfl⟩
    · obtain ⟨rfl, hc⟩ := List.append_inj' heq rfl
      obtain rfl : c = c' := by simpa using hc
      exact Or.inl hwithdraws
    · rw [List.concat_eq_append, ← List.cons_append, ← List.append_assoc] at heq
      obtain ⟨rfl, hc⟩ := List.append_inj' heq rfl
      obtain rfl : c = last := by simpa using hc
      rw [List.concat_eq_append, calls_append, calls_singleton, Output.reports_append,
        List.append_eq_nil_iff] at hreports
      refine Or.inr ⟨⟨before, c', after, rfl, hwithdraws, hreports.1⟩, ?_⟩
      rw [hthrough]
      exact hreports.2
  · rintro (hwithdraws | ⟨⟨before, c', after, rfl, hwithdraws, hreports⟩, hlast⟩)
    · exact ⟨calls, c, [], rfl, hwithdraws, rfl⟩
    · refine ⟨before, c', after ++ [c], by simp, hwithdraws, ?_⟩
      rw [hthrough] at hlast
      rw [calls_append, calls_singleton, Output.reports_append, hreports, hlast]
      rfl

/-- A side was last reported on just if it is on, or was withdrawn. -/
theorem last_calls (e : Engine) (calls : List Call) (ho : o ≠ .timingMark) (side : Side)
    (hoff : e.options.isOn o side = false) :
    ((e.calls calls).2.last o side false = true ↔
        (e.calls calls).1.options.isOn o side = true ∨ e.Withdrawn calls o side) ∧
      (e.Withdrawn calls o side → (e.calls calls).1.options.isOn o side = false) := by
  -- from the end: whether a withdrawal stands depends on what came after it
  induction calls using List.reverseRecOn with
  | nil =>
      have hnone : ¬e.Withdrawn [] o side := by
        rintro ⟨before, c, after, heq, -⟩
        simp at heq
      refine ⟨⟨?_, ?_⟩, ?_⟩
      · intro h
        contradiction
      · rintro (hon | h)
        · exact absurd (hoff.symm.trans hon) (by decide)
        · exact absurd h hnone
      · intro h
        exact absurd h hnone
  | append_singleton calls c ih =>
      obtain ⟨htold, hwithdrawn⟩ := ih
      let f := e.calls calls
      have hafter : (e.calls (calls ++ [c])).1 = (f.1.call c).1 := by
        rw [calls_append, calls_singleton]
      have hlast : (e.calls (calls ++ [c])).2.last o side false =
          (f.1.call c).2.last o side (f.2.last o side false) := by
        rw [calls_append, calls_singleton, Output.last_append]
      rw [hafter, hlast, withdrawn_append_singleton]
      by_cases hc : f.1.Withdraws o side c
      · -- nothing is reported, and what was last reported was true until now
        obtain ⟨hreports, hstanding⟩ := hc.call
        rw [Output.last_of_nil _ _ _ _ hreports]
        refine ⟨⟨?_, ?_⟩, ?_⟩
        · intro _
          exact Or.inr (Or.inl hc)
        · intro _
          exact htold.mpr (Or.inl hc.2)
        · intro _
          exact hstanding
      · have hcall := f.1.last_call ho side hc
        by_cases hreports : (f.1.call c).2.reports o side = []
        · rw [Output.last_of_nil _ _ _ _ hreports] at hcall ⊢
          rw [← hcall]
          refine ⟨htold.trans (or_congr_right ?_), ?_⟩
          · constructor
            · intro h
              exact Or.inr ⟨h, hreports⟩
            · intro h
              exact (h.resolve_left hc).1
          · intro h
            exact hwithdrawn (h.resolve_left hc).1
        · rw [Output.last_of_ne_nil _ _ _ _ hreports (f.1.options.isOn o side), hcall]
          have hkept : ¬(f.1.Withdraws o side c ∨
              e.Withdrawn calls o side ∧ (f.1.call c).2.reports o side = []) := by
            rintro (h | ⟨-, h⟩)
            · exact hc h
            · exact hreports h
          refine ⟨⟨Or.inl, ?_⟩, ?_⟩
          · intro h
            exact h.resolve_right hkept
          · intro h
            exact absurd h hkept

/-- The last report of a side tells where it stands, except after a withdrawal that
nothing was reported of. -/
theorem last_report_true_iff (e : Engine) (calls : List Call) (ho : o ≠ .timingMark)
    (side : Side) (hoff : e.options.isOn o side = false) :
    ((e.calls calls).1.options.isOn o side = (e.calls calls).2.last o side false) ↔
      ¬e.Withdrawn calls o side := by
  obtain ⟨htold, hwithdrawn⟩ := e.last_calls calls ho side hoff
  by_cases h : e.Withdrawn calls o side
  · simp [hwithdrawn h, htold.mpr (Or.inr h), h]
  · simp only [h, or_false] at htold
    simp only [h, not_false_eq_true, iff_true]
    exact Bool.eq_iff_iff.mpr htold.symm

theorem last_report_true_enabled :
    let calls : List Call := [.request .theirs .echo true, .decode [255, 251, 1]]
    let f := (Setup.engine {}).calls calls
    f.1.options.isOn .echo .theirs = f.2.last .echo .theirs false ∧
      ¬(Setup.engine {}).Withdrawn calls .echo .theirs := by
  intro calls f
  have hoff : (Setup.engine {}).options.isOn .echo .theirs = false := by decide +kernel
  have htrue : f.1.options.isOn .echo .theirs = f.2.last .echo .theirs false := by
    decide +kernel
  have hiff := (Setup.engine {}).last_report_true_iff calls (by decide) .theirs hoff
  exact ⟨htrue, hiff.mp htrue⟩

/-- An option that we ended and the peer let go is off, and was last reported on. -/
theorem last_report_withdrawn :
    let calls : List Call :=
      [.request .theirs .echo true, .decode [255, 251, 1], .request .theirs .echo false,
        .decode [255, 252, 1]]
    let f := (Setup.engine {}).calls calls
    f.1.options.standing .echo .theirs = .off ∧ f.2.last .echo .theirs false = true := by
  decide +kernel

end Engine

end RemoteConsole.Telnet
