/-
What an owner refuses stays off.  While a side of an option is neither allowed nor
asked for, nothing that the peer sends switches it on, and nothing is sent that says
it is on, but for subnegotiations that the owner sends for the option.
-/
import RemoteConsole.Proofs.Telnet.Calls
import RemoteConsole.Proofs.Telnet.Heeding

namespace RemoteConsole.Telnet

namespace Standing

/-- Off, or on the way there by the owner's wish. -/
def Declined (s : Standing) : Prop :=
  s = .off ∨ s = .disabling ∨ s = .enablingThenDisable

theorem declined_wish (s : Standing) : (s.wish false).1.Declined := by
  cases s <;> simp [wish, requestDisable, Declined]

theorem Declined.isOn {s : Standing} (h : s.Declined) : s.isOn = false := by
  rcases h with rfl | rfl | rfl <;> rfl

theorem Declined.wish {s : Standing} (h : s.Declined) : (s.wish false).2.words = [] := by
  rcases h with rfl | rfl | rfl <;> rfl

/-- An owner who does not agree stays out of it, and says nothing but no. -/
theorem Declined.hear {s : Standing} (h : s.Declined) (w : Bool) :
    (s.hear false w).1.Declined ∧ ∀ v ∈ (s.hear false w).2.words, v = false := by
  rcases h with rfl | rfl | rfl <;> cases w <;>
    simp [Standing.hear, receiveEnable, receiveDisable, Declined, Reaction.words]

end Standing

namespace Token

/-- Says that a side of an option is on, or is to be: switches it on, tells our value
of the option, or asks for the peer's. -/
def Affirms (side : Side) (o : OptionCode) : Token → Prop
  | .word s p enable => s = side.other ∧ p = o ∧ enable = true
  | .frame (code :: kept) => code = o.code ∧ (isAsk (.frame (code :: kept)) = true ↔ side = .theirs)
  | _ => False

/-- No token speaks for two sides. -/
theorem Affirms.inj {t : Token} {side side' : Side} {o o' : OptionCode}
    (h : t.Affirms side o) (h' : t.Affirms side' o') : side = side' ∧ o = o' := by
  cases t with
  | word s p enable =>
      obtain ⟨hs, rfl, -⟩ := h
      obtain ⟨hs', rfl, -⟩ := h'
      refine ⟨?_, rfl⟩
      simpa using congrArg Side.other (hs.symm.trans hs')
  | frame kept =>
      cases kept with
      | nil => exact h.elim
      | cons code kept =>
          obtain ⟨rfl, hask⟩ := h
          obtain ⟨hcode, hask'⟩ := h'
          have hside : side = .theirs ↔ side' = .theirs := hask.symm.trans hask'
          constructor
          · cases side <;> cases side' <;> simp_all
          · cases o
            cases o'
            exact congrArg OptionCode.mk hcode
  | data b => exact h.elim
  | command c => exact h.elim

end Token

/-- Whole messages of a kind, put one after another. -/
theorem Reads.forall_append {limit : Nat} {x y : List UInt8} {P : Token → Prop}
    (hx : ∃ us, Reads limit x us ∧ ∀ t ∈ us, P t) (hy : ∃ us, Reads limit y us ∧ ∀ t ∈ us, P t) :
    ∃ us, Reads limit (x ++ y) us ∧ ∀ t ∈ us, P t := by
  obtain ⟨us, hus, hx⟩ := hx
  obtain ⟨vs, hvs, hy⟩ := hy
  exact ⟨us ++ vs, hus.append hvs, List.forall_mem_append.mpr ⟨hx, hy⟩⟩

/-- The bytes are whole messages, none of which says that the side is on. -/
def Withholds (limit : Nat) (side : Side) (o : OptionCode) (bytes : List UInt8) : Prop :=
  ∃ us, Reads limit bytes us ∧ ∀ t ∈ us, ¬t.Affirms side o

namespace Withholds

variable {limit : Nat} {side : Side} {o : OptionCode}

theorem nil : Withholds limit side o [] :=
  ⟨[], Reads.nil limit, by simp⟩

theorem append {x y : List UInt8} (hx : Withholds limit side o x)
    (hy : Withholds limit side o y) : Withholds limit side o (x ++ y) :=
  Reads.forall_append hx hy

/-- What speaks for another side does not speak for this one. -/
theorem of_affirms {s : Side} {p : OptionCode} {bytes : List UInt8} {us : List Token}
    (hreads : Reads limit bytes us) (hus : ∀ t ∈ us, t.Affirms s p)
    (h : ¬(side = s ∧ o = p)) : Withholds limit side o bytes := by
  refine ⟨us, hreads, ?_⟩
  intro t ht haffirms
  exact h (haffirms.inj (hus t ht))

theorem data (bytes : List UInt8) (binary : Bool) :
    Withholds limit side o (escape binary bytes) := by
  refine ⟨_, Reads.escape limit binary bytes, ?_⟩
  intro t ht haffirms
  obtain ⟨b, -, rfl⟩ := List.mem_map.mp ht
  exact haffirms

theorem negotiation (s : Side) (p : OptionCode) (enable : Bool)
    (h : enable = true → ¬(side = s ∧ o = p)) :
    Withholds limit side o (negotiation (Engine.switchCommand s enable) p) := by
  refine ⟨_, Reads.negotiation limit s p enable, ?_⟩
  intro t ht haffirms
  rw [List.mem_singleton] at ht
  subst ht
  obtain ⟨hs, rfl, henable⟩ := haffirms
  refine h henable ⟨?_, rfl⟩
  simpa using congrArg Side.other hs.symm

theorem reaction {s : Side} {p : OptionCode} {r : Reaction}
    (h : true ∈ r.words → ¬(side = s ∧ o = p)) :
    Withholds limit side o (Engine.reactionBytes s p r) := by
  cases r with
  | ignored => exact nil
  | updated => exact nil
  | sendEnable => exact negotiation s p true fun _ => h List.mem_cons_self
  | sendDisable => exact negotiation s p false (by simp)

theorem value (e : Engine) {p : OptionCode} (h : ¬(side = .ours ∧ o = p)) :
    Withholds limit side o (e.valueBytes p) := by
  obtain ⟨us, hreads, htold⟩ := e.reads_value limit p
  refine of_affirms hreads ?_ h
  intro t ht
  obtain ⟨kept, rfl, hask⟩ := htold t ht
  refine ⟨rfl, ?_⟩
  rw [hask]
  decide

theorem followUp (hlimit : 0 < limit) (e : Engine) {s : Side} {p : OptionCode}
    (h : ¬(side = s ∧ o = p)) : Withholds limit side o (e.followUp p s) := by
  cases s with
  | ours => exact value e h
  | theirs =>
      rw [Engine.followUp_theirs]
      split
      next hp =>
          have hcode : p.code ≠ iac := by
            rcases hp with rfl | rfl <;> decide
          have hkept : ([1] : List UInt8).take limit = [1] := List.take_of_length_le hlimit
          refine of_affirms (Reads.subnegotiation limit p [1] hcode) ?_ h
          intro t ht
          rw [List.mem_singleton, hkept] at ht
          subst ht
          refine ⟨rfl, ?_⟩
          rcases hp with rfl | rfl <;> decide
      next => exact nil

end Withholds

namespace Engine

/-- A side that its owner neither allows nor wants. -/
structure Refuses (e : Engine) (side : Side) (o : OptionCode) : Prop where
  policy : (e.options.get o).agrees side = false
  declined : (e.options.standing o side).Declined

/-- The engine has come to `e'` and sent some bytes: the side is refused still, and
was not spoken for. -/
structure Upheld (limit : Nat) (side : Side) (o : OptionCode) (e' : Engine)
    (sent : List UInt8) : Prop where
  refuses : e'.Refuses side o
  withholds : Withholds limit side o sent

variable {limit : Nat} {side : Side} {o : OptionCode} {e : Engine}

theorem Refuses.isOn (h : e.Refuses side o) : e.options.isOn o side = false :=
  h.declined.isOn

theorem Refuses.of_options_eq {e' : Engine} (h : e.Refuses side o)
    (hoptions : e'.options = e.options) : e'.Refuses side o := by
  obtain ⟨hpolicy, hdeclined⟩ := h
  rw [← hoptions] at hpolicy hdeclined
  exact ⟨hpolicy, hdeclined⟩

/-- Where only another side of the table moves, the refusal stands. -/
theorem Refuses.reset (h : e.Refuses side o) {s : Side} {p : OptionCode} (standing : Standing)
    (hne : ¬(side = s ∧ o = p)) :
    { e with options := e.options.reset p s standing }.Refuses side o where
  policy := (OptionTable.agrees_reset ..).trans h.policy
  declined := by
    change ((e.options.reset p s standing).standing o side).Declined
    rw [OptionTable.standing_reset_of_not _ _ _ _ hne]
    exact h.declined

/-! What the peer sends. -/

theorem Refuses.hear (h : e.Refuses side o) (hlimit : 0 < limit) (s : Side) (p : OptionCode)
    (enable : Bool) :
    Upheld limit side o (e.hear s p enable).1 (e.hear s p enable).2.sent := by
  by_cases hself : side = s ∧ o = p
  · obtain ⟨rfl, rfl⟩ := hself
    have hstanding := OptionTable.standing_step_self e.options o side
      (if enable then .receiveEnable else .receiveDisable)
    rw [OptionTable.apply_hear, h.policy] at hstanding
    have hreaction : (e.heard side o enable).2 =
        ((e.options.standing o side).hear false enable).2 := by
      rw [heard, OptionTable.snd_step, OptionTable.apply_hear, h.policy]
    obtain ⟨hdeclined, hwords⟩ := h.declined.hear enable
    have hrefuses : { e with options := (e.heard side o enable).1 }.Refuses side o := by
      refine ⟨(OptionTable.agrees_step ..).trans h.policy, ?_⟩
      change ((e.heard side o enable).1.standing o side).Declined
      rw [heard, hstanding]
      exact hdeclined
    have hon : (e.heard side o enable).1.isOn o side = e.options.isOn o side :=
      hrefuses.isOn.trans h.isOn.symm
    rw [hear_eq]
    dsimp only
    rw [if_pos hon]
    refine ⟨hrefuses, Withholds.reaction ?_⟩
    rw [hreaction]
    intro htrue
    exact absurd (hwords true htrue) (by decide)
  · obtain ⟨more, hsent, hmore⟩ := e.sent_hear s p enable
    constructor
    · rw [fst_hear]
      refine ⟨(OptionTable.agrees_step ..).trans h.policy, ?_⟩
      change ((e.heard s p enable).1.standing o side).Declined
      rw [heard, OptionTable.standing_step_of_ne _ _ _ _ hself]
      exact h.declined
    · rw [hsent]
      apply (Withholds.reaction fun _ => hself).append
      rcases hmore with rfl | rfl
      · exact Withholds.nil
      · exact Withholds.followUp hlimit _ hself

/-- The timing mark is answered by policy, whatever stands. -/
theorem Refuses.hearTimingMark (h : e.Refuses side o) (hlimit : 0 < limit) (s : Side)
    (enable : Bool) :
    Upheld limit side o (e.hearTimingMark s enable).1 (e.hearTimingMark s enable).2.sent := by
  unfold Engine.hearTimingMark
  split
  · refine ⟨h, Withholds.negotiation _ _ _ ?_⟩
    rintro hagrees ⟨rfl, rfl⟩
    exact absurd (h.policy.symm.trans hagrees) (by decide)
  · exact h.hear hlimit ..
  · refine ⟨?_, Withholds.nil⟩
    by_cases hself : side = .theirs ∧ o = .timingMark
    · obtain ⟨rfl, rfl⟩ := hself
      refine ⟨(OptionTable.agrees_reset ..).trans h.policy, Or.inl ?_⟩
      simp [OptionTable.standing, OptionTable.reset]
    · exact h.reset _ hself

theorem Refuses.perform (h : e.Refuses side o) (hlimit : 0 < limit) (t : Token) :
    Upheld limit side o (e.perform t).1 (e.perform t).2.sent := by
  cases t with
  | data b =>
      obtain ⟨d, haccept, hsent⟩ := e.accept_eq b
      rw [Engine.perform, haccept, hsent]
      exact ⟨h.of_options_eq rfl, Withholds.nil⟩
  | command c =>
      obtain ⟨-, hoptions, hsent⟩ := e.onCommand_eq c
      refine ⟨h.of_options_eq hoptions, ?_⟩
      rw [Engine.perform]
      rcases hsent with hsent | hsent
      · rw [hsent]
        exact Withholds.nil
      · rw [hsent]
        exact Withholds.data ..
  | word s p enable =>
      change Upheld limit side o (e.onNegotiation s p enable).1 (e.onNegotiation s p enable).2.sent
      unfold onNegotiation
      split
      · exact h.hearTimingMark hlimit s enable
      · exact h.hear hlimit s p enable
  | frame kept =>
      cases kept with
      | nil => exact ⟨h, Withholds.nil⟩
      | cons code payload =>
          obtain ⟨-, hoptions, hsent⟩ := e.interpret_eq ⟨code⟩ payload
          refine ⟨h.of_options_eq hoptions, ?_⟩
          rw [Engine.perform]
          rcases hsent with hsent | ⟨-, hon, hsent⟩
          · rw [hsent]
            exact Withholds.nil
          · -- a value is told of an option that is on, so not of this one
            rw [hsent]
            apply Withholds.value
            rintro ⟨rfl, rfl⟩
            exact absurd (h.isOn.symm.trans hon) (by decide)

theorem Refuses.decode (h : e.Refuses side o) (hlimit : 0 < limit) (bytes : List UInt8) :
    Upheld limit side o (e.decode bytes).1 (e.decode bytes).2.sent := by
  revert h
  apply decode_induction
    (R := fun e next => e.Refuses side o → Upheld limit side o next.1 next.2.sent)
  · intro e h
    exact ⟨h, Withholds.nil⟩
  · intro e next last hnext hlast h
    obtain ⟨hrefuses, hwithholds⟩ := hnext h
    have hlast := hlast hrefuses
    exact ⟨hlast.refuses, hwithholds.append hlast.withholds⟩
  · intro e r next hnext h
    exact hnext (h.of_options_eq rfl)
  · intro e t h
    exact h.perform hlimit t

end Engine

/-! What the owner does. -/

/-- Calls in which the owner does not go back on a refusal. -/
def Call.Upholds (side : Side) (o : OptionCode) : Call → Prop
  | .request s p enable => side = s ∧ o = p → enable = false
  | .permit s p value => side = s ∧ o = p → value = false
  | .timingMark => ¬(side = .theirs ∧ o = .timingMark)
  | _ => True

instance (side : Side) (o : OptionCode) : DecidablePred (Call.Upholds side o)
  | .request _ _ _ => instDecidableForall
  | .permit _ _ _ => instDecidableForall
  | .timingMark => instDecidableNot
  | .decode _ | .encode _ | .urgent | .command _ | .subnegotiation _ _ | .resize _ _
  | .setTerminalType _ | .setTerminalSpeed _ => .isTrue trivial

/-- Calls that send whole messages: a command that stands alone, and a subnegotiation whose
option code is not read as the beginning of a command. -/
def Call.IsWhole : Call → Prop
  | .command c => c.isStandalone = true
  | .subnegotiation p _ => p.code ≠ iac
  | _ => True

instance : DecidablePred Call.IsWhole
  | .command _ => inferInstanceAs (Decidable (_ = true))
  | .subnegotiation _ _ => instDecidableNot
  | .request _ _ _ | .permit _ _ _ | .decode _ | .encode _ | .urgent | .timingMark | .resize _ _
  | .setTerminalType _ | .setTerminalSpeed _ => .isTrue trivial

/-- A call is a subnegotiation of the owner's own for an option, and this is how it is read. -/
def Call.Frames (limit : Nat) (o : OptionCode) (t : Token) (c : Call) : Prop :=
  ∃ payload, c = .subnegotiation o payload ∧ t = .frame (o.code :: payload.take limit)

namespace Engine

variable {limit : Nat} {side : Side} {o : OptionCode} {e : Engine}

theorem Refuses.request (h : e.Refuses side o) {s : Side} {p : OptionCode} {enable : Bool}
    (hcall : side = s ∧ o = p → enable = false) :
    Upheld limit side o (e.call (.request s p enable)).1
      (e.call (.request s p enable)).2.sent := by
  rw [call_request, reaction_wished]
  have hpolicy : ((e.wished s p enable).1.get o).agrees side = false :=
    (OptionTable.agrees_step ..).trans h.policy
  by_cases hself : side = s ∧ o = p
  · obtain rfl := hcall hself
    obtain ⟨rfl, rfl⟩ := hself
    constructor
    · refine ⟨hpolicy, ?_⟩
      change ((e.wished side o false).1.standing o side).Declined
      rw [standing_wished]
      exact Standing.declined_wish _
    · apply Withholds.reaction
      rw [h.declined.wish]
      intro htrue
      exact absurd htrue List.not_mem_nil
  · constructor
    · refine ⟨hpolicy, ?_⟩
      change ((e.wished s p enable).1.standing o side).Declined
      rw [standing_wished_of_ne e enable hself]
      exact h.declined
    · exact Withholds.reaction fun _ => hself

theorem Refuses.permit (h : e.Refuses side o) {s : Side} {p : OptionCode} {value : Bool}
    (hcall : side = s ∧ o = p → value = false) :
    { e with options := e.options.permit s p value }.Refuses side o where
  policy := by
    by_cases hself : side = s ∧ o = p
    · obtain rfl := hcall hself
      obtain ⟨rfl, rfl⟩ := hself
      exact OptionTable.agrees_permit_self ..
    · exact (OptionTable.agrees_permit_of_ne _ _ hself).trans h.policy
  declined := by
    change ((e.options.permit s p value).standing o side).Declined
    rw [OptionTable.standing_permit]
    exact h.declined

theorem Refuses.resize (h : e.Refuses side o) (columns rows : UInt16) :
    Withholds limit side o (e.setWindowSize columns rows).2.sent := by
  unfold setWindowSize
  split
  next hon =>
      have hne : ¬(side = .ours ∧ o = .windowSize) := by
        rintro ⟨rfl, rfl⟩
        exact absurd (h.isOn.symm.trans hon) (by decide)
      exact Withholds.value _ hne
  next => exact Withholds.nil

theorem Refuses.call (h : e.Refuses side o) {c : Call} (hc : c.Upholds side o) :
    (e.call c).1.Refuses side o := by
  cases c with
  | request s p enable =>
      have hupheld : Upheld 1 side o _ _ := h.request hc
      exact hupheld.refuses
  | permit s p value => exact h.permit hc
  | decode bytes => exact (h.decode Nat.one_pos bytes).refuses
  | timingMark => exact h.reset _ hc
  | _ => exact h.of_options_eq rfl

/-- A byte that follows IAC on its own is no negotiation yet. -/
theorem not_affirms_commandBytes (limit : Nat) (c : Command) (t : Token)
    (ht : t ∈ Reader.tokens { limit } (commandBytes c)) : ¬t.Affirms side o := by
  have htokens : Reader.tokens { limit } (commandBytes c) =
      (Reader.readCommand { decoder := .command, limit } c.code).2 := by
    simp [commandBytes, Reader.tokens, Reader.read]
  rw [htokens] at ht
  unfold Reader.readCommand at ht
  repeat' split at ht
  all_goals simp_all [Token.Affirms]

/-- A call that upholds a refusal speaks for the side only in a subnegotiation of the
owner's own. -/
theorem Refuses.reads_call (h : e.Refuses side o) (hlimit : 0 < limit) {c : Call}
    (hc : c.Upholds side o) (hwhole : c.IsWhole) :
    ∃ us, Reads limit (e.call c).2.sent us ∧ ∀ t ∈ us, t.Affirms side o → c.Frames limit o t := by
  have hsilent : Withholds limit side o (e.call c).2.sent →
      ∃ us, Reads limit (e.call c).2.sent us ∧
        ∀ t ∈ us, t.Affirms side o → c.Frames limit o t := by
    rintro ⟨us, hreads, hus⟩
    exact ⟨us, hreads, fun t ht haffirms => absurd haffirms (hus t ht)⟩
  cases c with
  | request s p enable => exact hsilent (h.request hc).withholds
  | decode bytes => exact hsilent (h.decode hlimit bytes).withholds
  | encode data => exact hsilent (Withholds.data ..)
  | command c => exact hsilent ⟨_, Reads.command limit hwhole, by simp [Token.Affirms]⟩
  | timingMark => exact hsilent (Withholds.negotiation .theirs .timingMark true fun _ => hc)
  | resize columns rows => exact hsilent (h.resize columns rows)
  | permit | urgent | setTerminalType | setTerminalSpeed => exact hsilent Withholds.nil
  | subnegotiation p payload =>
      refine ⟨_, Reads.subnegotiation limit p payload hwhole, ?_⟩
      intro t ht haffirms
      rw [List.mem_singleton] at ht
      subst ht
      obtain ⟨hcode, -⟩ := haffirms
      obtain rfl : p = o := congrArg OptionCode.mk hcode
      exact ⟨payload, rfl, rfl⟩

/-- A command that does not stand alone begins a message, and speaks for nothing yet. -/
theorem Refuses.affirms_call (h : e.Refuses side o) (hlimit : 0 < limit) {c : Call}
    (hc : c.Upholds side o) (hiac : ∀ payload, c ≠ .subnegotiation ⟨iac⟩ payload) {t : Token}
    (ht : t ∈ Reader.tokens { limit } (e.call c).2.sent) (haffirms : t.Affirms side o) :
    c.Frames limit o t := by
  have hread (hwhole : c.IsWhole) : c.Frames limit o t := by
    obtain ⟨us, hreads, hus⟩ := h.reads_call hlimit hc hwhole
    rw [(hreads { limit } rfl rfl).2] at ht
    exact hus t ht haffirms
  cases c with
  | command c => exact absurd haffirms (not_affirms_commandBytes limit c t ht)
  | subnegotiation p payload =>
      exact hread fun hcode => hiac payload (congrArg (Call.subnegotiation · payload)
        (congrArg OptionCode.mk hcode))
  | _ => exact hread trivial

theorem Refuses.calls (h : e.Refuses side o) {calls : List Call}
    (hcalls : ∀ c ∈ calls, c.Upholds side o) : (e.calls calls).1.Refuses side o := by
  induction calls generalizing e with
  | nil => exact h
  | cons c calls ih =>
      have hfirst := h.call (hcalls c List.mem_cons_self)
      apply ih hfirst
      intro c' hc'
      exact hcalls c' (List.mem_cons_of_mem c hc')

/-- So does a run of calls: its messages are those of each call in turn. -/
theorem Refuses.reads_calls (h : e.Refuses side o) (hlimit : 0 < limit) {calls : List Call}
    (hcalls : ∀ c ∈ calls, c.Upholds side o) (hwhole : ∀ c ∈ calls, c.IsWhole) :
    ∃ us, Reads limit (e.calls calls).2.sent us ∧
      ∀ t ∈ us, t.Affirms side o → ∃ c ∈ calls, c.Frames limit o t := by
  induction calls generalizing e with
  | nil => exact ⟨[], Reads.nil limit, by simp⟩
  | cons c calls ih =>
      have hc := hcalls c List.mem_cons_self
      obtain ⟨us, hfirst, hus⟩ := h.reads_call hlimit hc (hwhole c List.mem_cons_self)
      obtain ⟨vs, hrest, hvs⟩ := ih (h.call hc)
        (fun c' hc' => hcalls c' (List.mem_cons_of_mem c hc'))
        (fun c' hc' => hwhole c' (List.mem_cons_of_mem c hc'))
      apply Reads.forall_append
      · refine ⟨us, hfirst, ?_⟩
        intro t ht haffirms
        exact ⟨c, List.mem_cons_self, hus t ht haffirms⟩
      · refine ⟨vs, hrest, ?_⟩
        intro t ht haffirms
        obtain ⟨c', hc', hframes⟩ := hvs t ht haffirms
        exact ⟨c', List.mem_cons_of_mem c hc', hframes⟩

/-- A side that is off, as every side is at the start, or that the owner has just
asked to be off. -/
inductive Declines (side : Side) (o : OptionCode) : Engine → Prop where
  | off {e : Engine} (h : e.options.standing o side = .off) : Declines side o e
  | request (e : Engine) : Declines side o (e.call (.request side o false)).1

theorem Declines.declined (h : e.Declines side o) : (e.options.standing o side).Declined := by
  cases h with
  | off h => exact Or.inl h
  | request e =>
      change ((e.wished side o false).1.standing o side).Declined
      rw [standing_wished]
      exact Standing.declined_wish _

/-- What the owner refuses stays off, whatever the peer sends: the side is never on, and
nothing is sent that switches it on, tells our value or asks for the peer's, but for the
owner's own subnegotiations of the option.  This holds of the messages that a run sends one
after another, and of what any further call sends by itself. -/
theorem refusal_stands (e : Engine) {side : Side} {o : OptionCode}
    (hstart : e.Declines side o) (hpolicy : (e.options.get o).agrees side = false)
    {calls : List Call} (hcalls : ∀ c ∈ calls, c.Upholds side o) :
    let f := e.calls calls
    f.1.options.standing o side ≠ .on ∧
      ∀ limit, 0 < limit →
        ((∀ c ∈ calls, c.IsWhole) → ∀ t ∈ Reader.tokens { limit } f.2.sent,
          t.Affirms side o → ∃ c ∈ calls, c.Frames limit o t) ∧
        ∀ c, c.Upholds side o → (∀ payload, c ≠ .subnegotiation ⟨iac⟩ payload) →
          ∀ t ∈ Reader.tokens { limit } (f.1.call c).2.sent,
            t.Affirms side o → c.Frames limit o t := by
  intro f
  have hbegun : e.Refuses side o := ⟨hpolicy, hstart.declined⟩
  have hrefuses : f.1.Refuses side o := hbegun.calls hcalls
  refine ⟨?_, fun limit hlimit => ⟨?_, ?_⟩⟩
  · intro hon
    have hoff := hrefuses.isOn
    rw [OptionTable.isOn, hon] at hoff
    contradiction
  · intro hwhole t ht
    obtain ⟨us, hreads, hus⟩ := hbegun.reads_calls hlimit hcalls hwhole
    rw [(hreads { limit } rfl rfl).2] at ht
    exact hus t ht
  · intro c hc hiac t ht
    exact hrefuses.affirms_call hlimit hc hiac ht

/-- An option that was on, ended by its owner: the peer insists on it, and on its value.  The
owner tells another value, and then this one. -/
theorem refusal_stands_insisted :
    let d := ((Setup.engine { weCan := [.terminalType] }).calls
      [.decode [255, 253, 24], .permit .ours .terminalType false]).1
    let e := (d.call (.request .ours .terminalType false)).1
    let told : Call := .subnegotiation .terminalSpeed [0, 57]
    let calls : List Call :=
      [.decode [255, 253, 24], told, .decode [255, 253, 24], .request .theirs .terminalType true,
        .decode [255, 251, 24, 255, 250, 24, 1, 255, 240], .command .areYouThere]
    let insistence : Call := .decode [255, 254, 24, 255, 253, 24, 255, 250, 24, 1, 255, 240]
    let own : Call := .subnegotiation .terminalType [0, 88]
    d.options.standing .terminalType .ours = .on ∧
      (e.options.get .terminalType).agrees .ours = false ∧
      (∀ c ∈ calls, c.Upholds .ours .terminalType ∧ c.IsWhole) ∧
      (e.calls calls).1.options.standing .terminalType .ours ≠ .on ∧
      (∀ t ∈ Reader.tokens { limit := 4096 } (e.calls calls).2.sent,
        ¬t.Affirms .ours .terminalType) ∧
      (∀ t ∈ Reader.tokens { limit := 4096 } ((e.calls calls).1.call insistence).2.sent,
        ¬t.Affirms .ours .terminalType) ∧
      ∀ t ∈ Reader.tokens { limit := 4096 } ((e.calls calls).1.call own).2.sent,
        t.Affirms .ours .terminalType → t = .frame [24, 0, 88] := by
  intro d e told calls insistence own
  have hon : d.options.standing .terminalType .ours = .on := by decide +kernel
  have hpolicy : (e.options.get .terminalType).agrees .ours = false := by decide +kernel
  have hcalls : ∀ c ∈ calls, c.Upholds .ours .terminalType ∧ c.IsWhole := by decide
  have hstart : e.Declines .ours .terminalType := .request d
  obtain ⟨hstanding, hsent⟩ := refusal_stands e hstart hpolicy fun c hc => (hcalls c hc).1
  obtain ⟨hrun, hcall⟩ := hsent 4096 (by decide)
  refine ⟨hon, hpolicy, hcalls, hstanding, ?_, ?_, ?_⟩
  · intro t ht haffirms
    obtain ⟨c, hc, payload, rfl, -⟩ := hrun (fun c hc => (hcalls c hc).2) t ht haffirms
    simp [calls, told, OptionCode.terminalType, OptionCode.terminalSpeed] at hc
  · intro t ht haffirms
    obtain ⟨payload, hown, -⟩ := hcall insistence trivial (by simp [insistence]) t ht haffirms
    exact absurd hown (by simp [insistence])
  · intro t ht haffirms
    obtain ⟨payload, hown, hframe⟩ :=
      hcall own trivial (by simp [own, OptionCode.terminalType, iac]) t ht haffirms
    obtain ⟨-, rfl⟩ := Call.subnegotiation.inj hown
    exact hframe

/-- The owner's own bytes are sent as they are, whatever was refused: a value is told, a payload
for the option code 255, which is not doubled, reads as a switch, and so do two commands that
each begin a negotiation. -/
theorem refusal_spoken_over :
    let e := Setup.engine {}
    let own : Call := .subnegotiation .terminalType (0 :: Text.encode e.settings.terminalType)
    let undoubled : Call := .subnegotiation ⟨255⟩ [251, 24]
    let begun : List Call := [.command .will, .command .will]
    e.Declines .ours .terminalType ∧ (e.options.get .terminalType).agrees .ours = false ∧
      e.Declines .ours ⟨255⟩ ∧ (e.options.get ⟨255⟩).agrees .ours = false ∧
      (∀ c ∈ [own, undoubled], c.Upholds .ours .terminalType) ∧
      (∀ c ∈ begun, c.Upholds .ours ⟨255⟩) ∧
      (e.call own).2.sent = subnegotiation .terminalType (0 :: Text.encode "UNKNOWN") ∧
      (e.call undoubled).2.sent = [255, 250, 255, 251, 24, 255, 240] ∧
      .word .theirs .terminalType true ∈ Reader.tokens { limit := 4096 } (e.call undoubled).2.sent ∧
      .word .theirs ⟨255⟩ true ∈ Reader.tokens { limit := 4096 } (e.calls begun).2.sent := by
  intro e own undoubled begun
  have htype : e.options.standing .terminalType .ours = .off := by decide +kernel
  have hextended : e.options.standing ⟨255⟩ .ours = .off := by decide +kernel
  refine ⟨.off htype, ?_, .off hextended, ?_, by decide, by decide, rfl, ?_, ?_, ?_⟩
  all_goals decide +kernel

end Engine

end RemoteConsole.Telnet
