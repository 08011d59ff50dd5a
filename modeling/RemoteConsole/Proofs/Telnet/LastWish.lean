/-
One end wishes an option on and off as it likes, and the other only answers.  When
nothing is under way any more, the option is on at both ends if it was wished on last
and the other end agrees, and off otherwise.
-/
import RemoteConsole.Proofs.Telnet.Channel
import RemoteConsole.Proofs.Telnet.Convergence

namespace RemoteConsole.Telnet

namespace Standing

/-- Where a standing leads if the peer agrees. -/
def wanted : Standing → Bool
  | .off => false
  | .on => true
  | .disabling => false
  | .disablingThenEnable => true
  | .enabling => true
  | .enablingThenDisable => false

/-- While an answer is awaited, a wish changes nothing but what is wanted. -/
theorem phase_wish {s : Standing} (h : s.isPending = true) (enable : Bool) :
    (s.wish enable).1.phase = s.phase ∧ (s.wish enable).1.wanted = enable := by
  cases s <;> cases enable <;> first | exact ⟨rfl, rfl⟩ | contradiction

theorem eq_of_starting {s : Standing} (h : s.phase = .starting) :
    s = .enabling ∨ s = .enablingThenDisable := by
  cases s <;> first | exact Or.inl rfl | exact Or.inr rfl | contradiction

theorem eq_of_ending {s : Standing} (h : s.phase = .ending) :
    s = .disabling ∨ s = .disablingThenEnable := by
  cases s <;> first | exact Or.inl rfl | exact Or.inr rfl | contradiction

end Standing

/-- What the first end asked for is on its way to the second, which agrees or not, or
the answer is on its way back. -/
inductive Asked (agree : Bool) : Standing.Phase → Standing → List Bool → List Bool → Prop where
  | offered : Asked agree .starting .off [true] []
  | accepted (h : agree = true) : Asked agree .starting .on [] [true]
  | declined (h : agree = false) : Asked agree .starting .off [] [false]
  | withdrawn (h : agree = true) : Asked agree .ending .on [false] []
  | ended : Asked agree .ending .off [] [false]

/-- The first end wishes and the second only answers.  What was wished last has been
settled, or is what the first end wants still. -/
inductive Answered (wished agree : Bool) :
    Standing → Standing → List Bool → List Bool → Prop where
  | off (h : (wished && agree) = false) : Answered wished agree .off .off [] []
  | on (hwish : wished = true) (hagree : agree = true) : Answered wished agree .on .on [] []
  | asked {l r : Standing} {u v : List Bool} (h : Asked agree l.phase r u v)
      (hwish : l.wanted = wished) : Answered wished agree l r u v

theorem Asked.isPending {agree : Bool} {l r : Standing} {u v : List Bool}
    (h : Asked agree l.phase r u v) : l.isPending = true := by
  cases l with
  | off => cases h
  | on => cases h
  | _ => rfl

namespace Answered

variable {wished agree : Bool} {l r : Standing} {u v : List Bool}

theorem wish (h : Answered wished agree l r u v) (enable : Bool) :
    Answered enable agree (l.wish enable).1 r (u ++ (l.wish enable).2.words) v := by
  cases h with
  | off =>
      cases enable with
      | false => exact .off rfl
      | true => exact .asked .offered rfl
  | on _ hagree =>
      cases enable with
      | false => exact .asked (.withdrawn hagree) rfl
      | true => exact .on rfl hagree
  | asked h =>
      have hpending := h.isPending
      obtain ⟨hphase, hwanted⟩ := Standing.phase_wish hpending enable
      rw [Standing.words_wish_of_isPending hpending, List.append_nil]
      rw [← hphase] at h
      exact .asked h hwanted

theorem obey (h : Answered wished agree l r u v) (w : Option Bool) :
    Answered (w.getD wished) agree (l.obey w) r (u ++ l.tells w) v := by
  cases w with
  | none =>
      rw [Standing.tells, List.append_nil]
      exact h
  | some enable => exact h.wish enable

/-- The first end hears an answer. -/
theorem hear {w : Bool} (h : Answered wished agree l r u (w :: v)) (policy : Bool) :
    Answered wished agree (l.hear policy w).1 r (u ++ (l.hear policy w).2.words) v := by
  cases h with
  | asked h hwish =>
      generalize hphase : l.phase = phase at h
      cases h with
      | accepted hagree =>
          rcases Standing.eq_of_starting hphase with rfl | rfl
          · exact .on hwish.symm hagree
          · exact .asked (.withdrawn hagree) hwish
      | declined hagree =>
          have hoff : (wished && agree) = false := by rw [hagree, Bool.and_false]
          rcases Standing.eq_of_starting hphase with rfl | rfl
          · exact .off hoff
          · exact .off hoff
      | ended =>
          rcases Standing.eq_of_ending hphase with rfl | rfl
          · subst hwish
            exact .off rfl
          · exact .asked .offered hwish

/-- The second end hears what is asked for. -/
theorem hear_far {w : Bool} (h : Answered wished agree l r (w :: u) v) :
    Answered wished agree l (r.hear agree w).1 u (v ++ (r.hear agree w).2.words) := by
  cases h with
  | asked h hwish =>
      refine .asked ?_ hwish
      generalize l.phase = phase at h ⊢
      cases h with
      | offered =>
          cases agree with
          | false => exact .declined rfl
          | true => exact .accepted rfl
      | withdrawn => exact .ended

theorem heed (ws : List Bool) (h : Answered wished agree l r u (ws ++ v)) (policy : Bool) :
    Answered wished agree (l.heed policy ws) r (u ++ l.answers policy ws) v := by
  induction ws generalizing l u with
  | nil => simpa [Standing.heed, Standing.answers] using h
  | cons w ws ih =>
      have hnext := ih (h.hear policy)
      rwa [List.append_assoc] at hnext

theorem heed_far (ws : List Bool) (h : Answered wished agree l r (ws ++ u) v) :
    Answered wished agree l (r.heed agree ws) u (v ++ r.answers agree ws) := by
  induction ws generalizing r v with
  | nil => simpa [Standing.heed, Standing.answers] using h
  | cons w ws ih =>
      have hnext := ih h.hear_far
      rwa [List.append_assoc] at hnext

/-- When nothing is under way, both ends have come to the last wish, or to a refusal. -/
theorem outcome (h : Answered wished agree l r [] []) :
    l = (if wished && agree then .on else .off) ∧ r = if wished && agree then .on else .off := by
  cases h with
  | off h =>
      rw [h]
      exact ⟨rfl, rfl⟩
  | on hwish hagree =>
      rw [hwish, hagree]
      exact ⟨rfl, rfl⟩
  | asked h =>
      generalize l.phase = phase at h
      cases h

end Answered

namespace Connection

/-- The near end's wish for an option is on its way to the far end, which agrees to it
or not, or has been answered. -/
structure Attends (o : OptionCode) (wish agree : Bool) (c : Connection) : Prop where
  attuned : c.Attuned
  policy : (c.far.engine.options.get o).agrees .theirs = agree
  answered : Answered wish agree (c.near.engine.options.standing o .ours)
    (c.far.engine.options.standing o .theirs) (words .theirs o c.swap.ahead)
    (words .ours o c.ahead)

namespace Attends

variable {o : OptionCode} {wish agree : Bool} {c : Connection}

theorem call (h : c.Attends o wish agree) {call : Call} (hcall : call.Tame) :
    (c.act (.call call)).Attends o ((call.wish? .ours o).getD wish) agree where
  attuned := h.attuned.call hcall
  policy := h.policy
  answered := by
    obtain ⟨us, hutters⟩ := c.near.engine.call_tame c.far.engine.reader.limit hcall
    have hfar : (c.act (.call call)).swap.ahead = c.swap.ahead ++ us :=
      (h.attuned.sent hutters.reads).2
    have htells : words .theirs o us = _ := hutters.tells o .ours
    change Answered _ _ ((c.near.engine.call call).1.options.standing o .ours) _ _ _
    rw [ahead_call hutters, hfar, words_append, hutters.standing, htells]
    exact h.answered.obey _

theorem take (h : c.Attends o wish agree) : (c.act .take).Attends o wish agree where
  attuned := h.attuned.take
  policy := h.policy
  answered := by
    rw [ahead_take]
    exact h.answered

theorem receive (h : c.Attends o wish agree) (ho : o ≠ .timingMark) (count : Nat) :
    (c.act (.receive count)).Attends o wish agree where
  attuned := h.attuned.receive count
  policy := h.policy
  answered := by
    obtain ⟨us, hreceipt⟩ := h.attuned.receipt count
    have hanswers : words .theirs o us = _ := hreceipt.heeds.answers o ho .ours
    have hanswered := h.answered
    rw [hreceipt.ahead, words_append] at hanswered
    rw [hreceipt.heeds.standing o ho .ours, hreceipt.ahead_swap, words_append, hanswers]
    exact hanswered.heed _ _

/-- What waits to be read has no part in it. -/
theorem leave (h : c.Attends o wish agree) (clean : List UInt8) :
    (c.leave clean).Attends o wish agree where
  attuned := ⟨h.attuned.whole, h.attuned.whole_swap, h.attuned.tame, h.attuned.tame_swap,
    h.attuned.linked⟩
  policy := h.policy
  answered := h.answered

/-! The far end. -/

theorem call_far (h : c.Attends o wish agree) {call : Call} (hcall : call.Tame)
    (hleaves : call.Leaves .theirs o) :
    (c.swap.act (.call call)).swap.Attends o wish agree where
  attuned := (h.attuned.swap.call hcall).swap
  policy := (c.far.engine.agrees_call hcall hleaves).trans h.policy
  answered := by
    obtain ⟨us, hutters⟩ := c.far.engine.call_tame c.near.engine.reader.limit hcall
    have hahead : (c.swap.act (.call call)).swap.ahead = c.ahead ++ us :=
      (h.attuned.swap.sent hutters.reads).2
    have hahead' : (c.swap.act (.call call)).ahead = c.swap.ahead := ahead_call hutters
    have hstanding : (c.far.engine.call call).1.options.standing o .theirs = _ :=
      hutters.standing o .theirs
    have htells : words .ours o us = _ := hutters.tells o .theirs
    rw [hleaves.wish?] at hstanding htells
    change Answered _ _ _ ((c.far.engine.call call).1.options.standing o .theirs)
      (words .theirs o (c.swap.act (.call call)).ahead)
      (words .ours o (c.swap.act (.call call)).swap.ahead)
    rw [hahead, hahead', words_append, hstanding, htells, Standing.tells, List.append_nil]
    exact h.answered

theorem take_far (h : c.Attends o wish agree) : (c.swap.act .take).swap.Attends o wish agree where
  attuned := h.attuned.swap.take.swap
  policy := h.policy
  answered := by
    have hahead : (c.swap.act .take).swap.ahead = c.ahead := ahead_take c.swap
    change Answered _ _ _ _ _ (words .ours o (c.swap.act .take).swap.ahead)
    rw [hahead]
    exact h.answered

theorem receive_far (h : c.Attends o wish agree) (ho : o ≠ .timingMark) (count : Nat) :
    (c.swap.act (.receive count)).swap.Attends o wish agree := by
  obtain ⟨us, hreceipt⟩ := h.attuned.swap.receipt count
  have hpolicy := hreceipt.heeds.agrees o .theirs
  have hstanding := hreceipt.heeds.standing o ho .theirs
  have hanswers : words .ours o us = _ := hreceipt.heeds.answers o ho .theirs
  have hanswered := h.answered
  rw [hreceipt.ahead, words_append] at hanswered
  rw [near_swap, h.policy] at hpolicy hstanding hanswers
  refine ⟨(h.attuned.swap.receive count).swap, hpolicy, ?_⟩
  change Answered _ _ _ ((c.swap.act (.receive count)).near.engine.options.standing o .theirs)
    (words .theirs o (c.swap.act (.receive count)).ahead)
    (words .ours o (c.swap.act (.receive count)).swap.ahead)
  rw [hstanding, hreceipt.ahead_swap, words_append, hanswers]
  exact hanswered.heed_far _

end Attends

/-! Runs. -/

/-- What can happen when the near end is held by a Telnet channel too. -/
inductive Deed where
  | move (m : End × Move)
  | setLocalEcho (enabled : Bool)
  | read (count : Nat)
deriving DecidableEq, Repr

namespace Deed

/-- Whether the near owner wishes the option on or off. -/
def wish? (o : OptionCode) : Deed → Option Bool
  | .move (.near, .call call) => call.wish? .ours o
  | .setLocalEcho enabled => if o = .echo then some (!enabled) else none
  | _ => none

/-- Tame, and with the option left to the near owner. -/
def Unopposed (o : OptionCode) : Deed → Prop
  | .move (.near, m) => m.Tame
  | .move (.far, .call call) => call.Tame ∧ call.Leaves .theirs o
  | _ => True

instance (o : OptionCode) : DecidablePred (Unopposed o)
  | .move (.near, m) => inferInstanceAs (Decidable m.Tame)
  | .move (.far, .call call) => inferInstanceAs (Decidable (call.Tame ∧ call.Leaves .theirs o))
  | .move (.far, .take) | .move (.far, .receive _) => .isTrue trivial
  | .setLocalEcho _ | .read _ => .isTrue trivial

end Deed

/-- Whether an option was last wished on. -/
def lastWish (o : OptionCode) (deeds : List Deed) : Bool :=
  (deeds.filterMap (Deed.wish? o)).getLast?.getD false

def carryOut (c : Connection) : Deed → Connection
  | .move m => c.step m
  | .setLocalEcho enabled => ((channel.setLocalEcho enabled).run c).2
  | .read count => ((channel.read count).run c).2

def carryOutAll (c : Connection) (deeds : List Deed) : Connection :=
  deeds.foldl carryOut c

namespace Attends

variable {o : OptionCode} {wish agree : Bool} {c : Connection}

theorem start (near far : Setup) (o : OptionCode) :
    (start near far).Attends o false ((far.engine.options.get o).agrees .theirs) where
  attuned := attuned_start near far
  policy := rfl
  answered := by
    change Answered _ _ (near.engine.options.standing o .ours)
      (far.engine.options.standing o .theirs) [] []
    rw [Setup.standing_engine, Setup.standing_engine]
    exact .off rfl

theorem setLocalEcho (h : c.Attends o wish agree) (enabled : Bool) :
    (c.carryOut (.setLocalEcho enabled)).Attends o
      (((Deed.setLocalEcho enabled).wish? o).getD wish) agree := by
  have hcall : (Call.request .ours .echo (!enabled)).Tame :=
    (by decide : OptionCode.echo ≠ .timingMark)
  have hwish : (Call.request .ours .echo (!enabled)).wish? .ours o =
      (Deed.setLocalEcho enabled).wish? o := by
    simp [Call.wish?, Deed.wish?]
  have hasked : ((c.act (.call (.request .ours .echo (!enabled)))).act .take).Attends o
      (((Call.request .ours .echo (!enabled)).wish? .ours o).getD wish) agree :=
    (h.call hcall).take
  rw [carryOut, run_setLocalEcho, ← hwish]
  exact hasked

theorem read (h : c.Attends o wish agree) (ho : o ≠ .timingMark) (count : Nat) :
    (c.carryOut (.read count)).Attends o wish agree := by
  apply read_induction (P := Attends o wish agree) _ _ _ h
  · intro c count h
    exact h.receive ho count
  · intro c h
    exact h.take
  · intro c clean h
    exact h.leave clean

theorem carryOut (h : c.Attends o wish agree) (ho : o ≠ .timingMark) {d : Deed}
    (hd : d.Unopposed o) : (c.carryOut d).Attends o ((d.wish? o).getD wish) agree := by
  cases d with
  | setLocalEcho enabled => exact h.setLocalEcho enabled
  | read count => exact h.read ho count
  | move m =>
      obtain ⟨e, m⟩ := m
      cases e with
      | near =>
          cases m with
          | call call => exact h.call hd
          | take => exact h.take
          | receive count => exact h.receive ho count
      | far =>
          cases m with
          | call call => exact h.call_far hd.1 hd.2
          | take => exact h.take_far
          | receive count => exact h.receive_far ho count

theorem carryOutAll (h : c.Attends o wish agree) (ho : o ≠ .timingMark) {deeds : List Deed}
    (hdeeds : ∀ d ∈ deeds, d.Unopposed o) :
    (c.carryOutAll deeds).Attends o
      ((deeds.filterMap (Deed.wish? o)).getLast?.getD wish) agree := by
  induction deeds generalizing c wish with
  | nil => exact h
  | cons d deeds ih =>
      have hrest := ih (h.carryOut ho (hdeeds d List.mem_cons_self))
        fun d' hd' => hdeeds d' (List.mem_cons_of_mem d hd')
      have hlast : (List.filterMap (Deed.wish? o) (d :: deeds)).getLast?.getD wish =
          (deeds.filterMap (Deed.wish? o)).getLast?.getD ((d.wish? o).getD wish) := by
        rw [List.filterMap_cons]
        cases d.wish? o with
        | none => rfl
        | some enable =>
            rw [List.getLast?_cons]
            rfl
      rw [hlast]
      exact hrest

end Attends

/-- Whenever nothing is under way, both ends take an option that only the near owner
wishes on and off to stand as wished last, if the far end agrees to it, and off if it
does not.  Of echo this goes for the calls that switch local echo. -/
theorem last_wish_stands (near far : Setup) {o : OptionCode} (ho : o ≠ .timingMark)
    {deeds : List Deed} (hdeeds : ∀ d ∈ deeds, d.Unopposed o) :
    let c := (start near far).carryOutAll deeds
    let agree := (far.engine.options.get o).agrees .theirs
    let outcome : Standing := if lastWish o deeds && agree then .on else .off
    c.Quiet → c.near.engine.options.standing o .ours = outcome ∧
      c.far.engine.options.standing o .theirs = outcome := by
  intro c agree outcome hquiet
  have hattends : c.Attends o (lastWish o deeds) agree :=
    (Attends.start near far o).carryOutAll ho hdeeds
  have hahead : c.ahead = [] := congrArg c.near.engine.reader.tokens hquiet.2
  have hahead' : c.swap.ahead = [] := congrArg c.far.engine.reader.tokens hquiet.1
  have hanswered := hattends.answered
  rw [hahead, hahead'] at hanswered
  exact hanswered.outcome

/-- Echo is switched three times before the first answer comes, and once more while an
answer is delayed. -/
theorem last_wish_stands_toggled :
    let far : Setup := { theyShould := [.echo] }
    let done : List Deed :=
      [.setLocalEcho false, .setLocalEcho true, .setLocalEcho false,
        .move (.far, .receive 2), .move (.far, .receive 10), .move (.far, .take), .read 1,
        .setLocalEcho true, .move (.far, .receive 10), .setLocalEcho false,
        .move (.far, .take), .read 1, .move (.far, .receive 10), .move (.far, .take), .read 1]
    OptionCode.echo ≠ .timingMark ∧ (∀ d ∈ done, d.Unopposed .echo) ∧
      ((start {} far).carryOutAll done).Quiet ∧
      ((start {} far).carryOutAll done).near.engine.options.standing .echo .ours = .on ∧
      ((start {} far).carryOutAll done).far.engine.options.standing .echo .theirs = .on := by
  intro far done
  have ho : OptionCode.echo ≠ .timingMark := by decide
  have hunopposed : ∀ d ∈ done, d.Unopposed .echo := by decide
  have hquiet : ((start {} far).carryOutAll done).Quiet := by decide +kernel
  have hstands := last_wish_stands {} far ho hunopposed hquiet
  exact ⟨ho, hunopposed, hquiet, hstands⟩

end Connection

end RemoteConsole.Telnet
