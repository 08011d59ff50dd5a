/-
What an engine makes of the words in its stream, and what it answers.  To each
side of each option decoding is no more than hearing, in order, the words about
it; whatever is sent meanwhile consists of whole messages.
-/
import RemoteConsole.Proofs.Telnet.Messages
import RemoteConsole.Proofs.Telnet.Table

namespace RemoteConsole.Telnet

namespace Token

/-- What a token says about one side of an option. -/
def wordOn? (side : Side) (o : OptionCode) : Token → Option Bool
  | .word s p enable => if s = side ∧ p = o then some enable else none
  | .data _ => none
  | .command _ => none
  | .frame _ => none

def isWord : Token → Bool
  | .word .. => true
  | _ => false

/-- Whether a token asks for a value. -/
def isAsk : Token → Bool
  | .frame (code :: 1 :: _) =>
      OptionCode.mk code = .terminalType || OptionCode.mk code = .terminalSpeed
  | _ => false

/-- Neither a command nor about the timing mark. -/
def Tame : Token → Prop
  | .command _ => False
  | .word _ o _ => o ≠ .timingMark
  | .data _ => True
  | .frame _ => True

/-- Of a negotiation, and not about the timing mark. -/
def Negotiates : Token → Prop
  | .word _ o _ => o ≠ .timingMark
  | .frame _ => True
  | .data _ => False
  | .command _ => False

theorem Negotiates.tame {t : Token} (h : t.Negotiates) : t.Tame := by
  cases t with
  | word => exact h
  | frame => trivial
  | data => exact h.elim
  | command => exact h.elim

end Token

/-- The words about one side of an option. -/
def words (side : Side) (o : OptionCode) (ts : List Token) : List Bool :=
  ts.filterMap (Token.wordOn? side o)

@[simp] theorem words_nil (side : Side) (o : OptionCode) : words side o [] = [] := rfl

@[simp] theorem words_append (side : Side) (o : OptionCode) (ts us : List Token) :
    words side o (ts ++ us) = words side o ts ++ words side o us := by
  simp [words]

/-- Tokens that are all frames say nothing about any option. -/
def Framed (us : List Token) : Prop :=
  ∀ t ∈ us, ∃ kept, t = .frame kept

theorem Framed.words_eq {us : List Token} (h : Framed us) (side : Side) (o : OptionCode) :
    words side o us = [] := by
  rw [words, List.filterMap_eq_nil_iff]
  intro t ht
  obtain ⟨kept, rfl⟩ := h t ht
  rfl

theorem Framed.negotiates {us : List Token} (h : Framed us) : ∀ t ∈ us, t.Negotiates := by
  intro t ht
  obtain ⟨kept, rfl⟩ := h t ht
  trivial

/-! What is sent of an engine's own accord. -/

theorem reads_reactionBytes (limit : Nat) (side : Side) (o : OptionCode) (r : Reaction) :
    Reads limit (Engine.reactionBytes side o r) (r.words.map (.word side.other o)) := by
  cases r with
  | ignored => exact Reads.nil limit
  | updated => exact Reads.nil limit
  | sendEnable => exact Reads.negotiation limit side o true
  | sendDisable => exact Reads.negotiation limit side o false

theorem words_map_word (side : Side) (o : OptionCode) (ws : List Bool) :
    words side o (ws.map (.word side o)) = ws := by
  simp [words, Token.wordOn?, Function.comp_def]

theorem words_map_word_of_ne {side other : Side} {o p : OptionCode} (ws : List Bool)
    (h : ¬(other = side ∧ p = o)) : words side o (ws.map (.word other p)) = [] := by
  simp [words, Token.wordOn?, h]

namespace Engine

/-- No value of ours is longer on the wire. -/
def longest (e : Engine) : Nat :=
  (e.valueBytes .terminalType).length + (e.valueBytes .terminalSpeed).length +
    (e.valueBytes .windowSize).length

theorem length_valueBytes (e : Engine) (o : OptionCode) :
    (e.valueBytes o).length ≤ e.longest := by
  by_cases htype : o = .terminalType
  · subst htype
    unfold longest
    omega
  by_cases hspeed : o = .terminalSpeed
  · subst hspeed
    unfold longest
    omega
  by_cases hsize : o = .windowSize
  · subst hsize
    unfold longest
    omega
  simp [valueBytes, htype, hspeed, hsize]

theorem longest_congr {e e' : Engine} (h : e'.settings = e.settings) :
    e'.longest = e.longest := by
  unfold longest valueBytes
  rw [h]

theorem not_isAsk_value (limit : Nat) (code : UInt8) (value : List UInt8) :
    Token.isAsk (.frame (code :: (0 :: value).take limit)) = false := by
  cases limit <;> rfl

theorem not_isAsk_windowSize (kept : List UInt8) :
    Token.isAsk (.frame (OptionCode.windowSize.code :: kept)) = false := by
  unfold Token.isAsk
  split
  next h =>
      obtain ⟨rfl, -⟩ := List.cons.inj (Token.frame.inj h)
      decide
  next => rfl

theorem reads_told (limit : Nat) (o : OptionCode) (payload : List UInt8)
    (ho : o.code ≠ iac)
    (hask : Token.isAsk (.frame (o.code :: payload.take limit)) = false) :
    ∃ us, Reads limit (subnegotiation o payload) us ∧
      ∀ t ∈ us, ∃ kept, t = .frame (o.code :: kept) ∧ t.isAsk = false := by
  refine ⟨_, Reads.subnegotiation limit o payload ho, ?_⟩
  intro t ht
  rw [List.mem_singleton] at ht
  exact ⟨_, ht, ht ▸ hask⟩

/-- A value of ours is told under its own option, and asks for nothing. -/
theorem reads_value (limit : Nat) (e : Engine) (o : OptionCode) :
    ∃ us, Reads limit (e.valueBytes o) us ∧
      ∀ t ∈ us, ∃ kept, t = .frame (o.code :: kept) ∧ t.isAsk = false := by
  unfold valueBytes
  split
  next h =>
      subst h
      exact reads_told limit _ _ (by decide) (not_isAsk_value limit _ _)
  split
  next h =>
      subst h
      exact reads_told limit _ _ (by decide) (not_isAsk_value limit _ _)
  split
  next h =>
      subst h
      exact reads_told limit _ _ (by decide) (not_isAsk_windowSize _)
  next => exact ⟨[], Reads.nil limit, by simp⟩

theorem reads_valueBytes (limit : Nat) (e : Engine) (o : OptionCode) :
    ∃ us, Reads limit (e.valueBytes o) us ∧ Framed us ∧ us.countP Token.isAsk = 0 := by
  obtain ⟨us, hreads, htold⟩ := e.reads_value limit o
  refine ⟨us, hreads, ?_, List.countP_eq_zero.mpr ?_⟩
  · intro t ht
    obtain ⟨kept, rfl, -⟩ := htold t ht
    exact ⟨_, rfl⟩
  · intro t ht
    obtain ⟨kept, -, hask⟩ := htold t ht
    simp [hask]

theorem followUp_theirs (e : Engine) (o : OptionCode) :
    e.followUp o .theirs =
      if o = .terminalType ∨ o = .terminalSpeed then subnegotiation o [1] else [] := rfl

/-- What follows on a switch asks for one value at most. -/
theorem reads_followUp (limit : Nat) (e : Engine) (o : OptionCode) (side : Side) :
    ∃ us, Reads limit (e.followUp o side) us ∧ Framed us ∧ us.countP Token.isAsk ≤ 1 := by
  cases side with
  | ours =>
      obtain ⟨us, hreads, hframed, hasks⟩ := e.reads_valueBytes limit o
      exact ⟨us, hreads, hframed, by omega⟩
  | theirs =>
      rw [followUp_theirs]
      split
      next h =>
          have ho : o.code ≠ iac := by
            rcases h with rfl | rfl <;> decide
          exact ⟨_, Reads.subnegotiation limit o [1] ho, by simp [Framed],
            List.countP_le_length⟩
      next => exact ⟨[], Reads.nil limit, by simp [Framed], by simp⟩

theorem length_followUp (e : Engine) (o : OptionCode) (side : Side) :
    (e.followUp o side).length ≤ 6 + e.longest := by
  cases side with
  | ours => exact Nat.le_trans (e.length_valueBytes o) (Nat.le_add_left _ _)
  | theirs =>
      rw [followUp_theirs]
      split
      · simp [subnegotiation, doubled, iac]
      · simp

end Engine

/-! Acting on tokens. -/

/-- Acting on `ts` leads from `e` to `e'` and sends bytes that read as `us`: every
side of every option has heard the words about it, and what is sent is bounded by
what was heard. -/
structure Heeds (limit : Nat) (e : Engine) (ts : List Token) (e' : Engine)
    (sent : List UInt8) (us : List Token) : Prop where
  settings : e'.settings = e.settings
  agrees : ∀ o side, (e'.options.get o).agrees side = (e.options.get o).agrees side
  reads : Reads limit sent us
  standing : ∀ o, o ≠ .timingMark → ∀ side,
    e'.options.standing o side =
      (e.options.standing o side).heed ((e.options.get o).agrees side) (words side o ts)
  answers : ∀ o, o ≠ .timingMark → ∀ side,
    words side.other o us =
      (e.options.standing o side).answers ((e.options.get o).agrees side) (words side o ts)
  negotiates : (∀ t ∈ ts, t.Tame) → ∀ t ∈ us, t.Negotiates
  length : (∀ t ∈ ts, t.Tame) → sent.length ≤
    ts.countP Token.isWord * (9 + e.longest) + ts.countP Token.isAsk * e.longest
  asks : us.countP Token.isAsk ≤ ts.countP Token.isWord

namespace Heeds

variable {limit : Nat} {e e' e'' : Engine} {ts ts' us us' : List Token}
  {sent sent' : List UInt8}

/-- An engine that only reads on has heard nothing. -/
theorem of_options_eq (hsettings : e'.settings = e.settings)
    (hoptions : e'.options = e.options) :
    Heeds limit e [] e' [] [] where
  settings := hsettings
  agrees := by simp [hoptions]
  reads := Reads.nil limit
  standing := by simp [hoptions, Standing.heed]
  answers := by simp [Standing.answers]
  negotiates := by simp
  length := by simp
  asks := by simp

theorem trans (h : Heeds limit e ts e' sent us) (h' : Heeds limit e' ts' e'' sent' us') :
    Heeds limit e (ts ++ ts') e'' (sent ++ sent') (us ++ us') where
  settings := h'.settings.trans h.settings
  agrees o side := (h'.agrees o side).trans (h.agrees o side)
  reads := h.reads.append h'.reads
  standing o ho side := by
    rw [h'.standing o ho side, h.agrees, h.standing o ho side, words_append,
      Standing.heed_append]
  answers o ho side := by
    rw [words_append, words_append, h.answers o ho side, h'.answers o ho side, h.agrees,
      h.standing o ho side, Standing.answers_append]
  negotiates ht t htm := by
    rcases List.mem_append.mp htm with hmem | hmem
    · exact h.negotiates (fun t ht' => ht t (List.mem_append_left _ ht')) t hmem
    · exact h'.negotiates (fun t ht' => ht t (List.mem_append_right _ ht')) t hmem
  length ht := by
    have hfirst := h.length fun t ht' => ht t (List.mem_append_left _ ht')
    have hnext := h'.length fun t ht' => ht t (List.mem_append_right _ ht')
    rw [Engine.longest_congr h.settings] at hnext
    rw [List.length_append, List.countP_append, List.countP_append, Nat.add_mul, Nat.add_mul]
    omega
  asks := by
    have hfirst := h.asks
    have hnext := h'.asks
    rw [List.countP_append, List.countP_append]
    omega

end Heeds

namespace Engine

/-- The option table once a word has been heard. -/
def heard (e : Engine) (side : Side) (o : OptionCode) (enable : Bool) :
    OptionTable × Reaction :=
  e.options.step o side (if enable then .receiveEnable else .receiveDisable)

theorem hear_eq (e : Engine) (side : Side) (o : OptionCode) (enable : Bool) :
    e.hear side o enable =
      let next := e.heard side o enable
      let e' := { e with options := next.1 }
      let answer : Output := { sent := reactionBytes side o next.2 }
      let on := next.1.isOn o side
      if on = e.options.isOn o side then (e', answer)
      else
        (e', answer ++
          { events := [.switched o side on], sent := if on then e'.followUp o side else [] }) :=
  rfl

theorem fst_hear (e : Engine) (side : Side) (o : OptionCode) (enable : Bool) :
    (e.hear side o enable).1 = { e with options := (e.heard side o enable).1 } := by
  rw [hear_eq]
  dsimp only
  split <;> rfl

/-- The answer comes first, then what follows from a switch. -/
theorem sent_hear (e : Engine) (side : Side) (o : OptionCode) (enable : Bool) :
    ∃ more, (e.hear side o enable).2.sent =
        reactionBytes side o (e.heard side o enable).2 ++ more ∧
      (more = [] ∨ more = (e.hear side o enable).1.followUp o side) := by
  rw [hear_eq]
  dsimp only
  split
  · exact ⟨[], (List.append_nil _).symm, Or.inl rfl⟩
  · rw [Output.sent_append]
    split
    · exact ⟨_, rfl, Or.inr rfl⟩
    · exact ⟨_, rfl, Or.inl rfl⟩

end Engine

theorem length_reactionBytes (side : Side) (o : OptionCode) (r : Reaction) :
    (Engine.reactionBytes side o r).length ≤ 3 := by
  cases r <;> simp [Engine.reactionBytes, negotiation]

theorem words_word_self (side : Side) (o : OptionCode) (enable : Bool) :
    words side o [.word side o enable] = [enable] := by
  simp [words, Token.wordOn?]

theorem words_word_of_ne {side other : Side} {o p : OptionCode} (enable : Bool)
    (h : ¬(other = side ∧ p = o)) : words side o [.word other p enable] = [] :=
  words_map_word_of_ne [enable] h

theorem Heeds.hear (limit : Nat) (e : Engine) (side : Side) (o : OptionCode)
    (enable : Bool) :
    ∃ us, Heeds limit e [.word side o enable] (e.hear side o enable).1
      (e.hear side o enable).2.sent us := by
  have hfst := e.fst_hear side o enable
  obtain ⟨more, hsent, hmore⟩ := e.sent_hear side o enable
  -- what follows on the answer is framed, so it says nothing more
  obtain ⟨us, hreads, hframed, hasks, hlength⟩ : ∃ us, Reads limit more us ∧ Framed us ∧
      us.countP Token.isAsk ≤ 1 ∧ more.length ≤ 6 + e.longest := by
    rcases hmore with rfl | rfl
    · exact ⟨[], Reads.nil limit, by simp [Framed], by simp, by simp⟩
    · obtain ⟨us, hreads, hframed, hasks⟩ :=
        (e.hear side o enable).1.reads_followUp limit o side
      refine ⟨us, hreads, hframed, hasks, ?_⟩
      have hlength := (e.hear side o enable).1.length_followUp o side
      rwa [Engine.longest_congr (by rw [hfst])] at hlength
  let reaction := (e.heard side o enable).2
  refine ⟨reaction.words.map (.word side.other o) ++ us, ?_⟩
  have hreaction : reaction.words = (e.options.standing o side).answers
      ((e.options.get o).agrees side) [enable] := by
    simp [reaction, Engine.heard, OptionTable.snd_step, OptionTable.apply_hear,
      Standing.answers]
  have hother : ∀ {p : OptionCode} {s : Side}, ¬(s = side ∧ p = o) →
      ¬(side = s ∧ o = p) := by
    intro p s hne heq
    exact hne ⟨heq.1.symm, heq.2.symm⟩
  exact {
    settings := by rw [hfst]
    agrees := by
      intro p s
      rw [hfst]
      exact OptionTable.agrees_step ..
    reads := by
      rw [hsent]
      exact (reads_reactionBytes limit side o reaction).append hreads
    standing := by
      intro p _ s
      rw [hfst]
      by_cases h : s = side ∧ p = o
      · obtain ⟨rfl, rfl⟩ := h
        rw [words_word_self]
        simp [Engine.heard, OptionTable.standing_step_self, OptionTable.apply_hear,
          Standing.heed]
      · rw [words_word_of_ne _ (hother h)]
        exact OptionTable.standing_step_of_ne _ _ _ _ h
    answers := by
      intro p _ s
      rw [words_append, hframed.words_eq, List.append_nil]
      by_cases h : s = side ∧ p = o
      · obtain ⟨rfl, rfl⟩ := h
        rw [words_map_word, words_word_self, hreaction]
      · rw [words_word_of_ne _ (hother h), words_map_word_of_ne _ fun heq => h ⟨?_, heq.2.symm⟩]
        · rfl
        · simpa using (congrArg Side.other heq.1).symm
    negotiates := by
      intro ht t htm
      rcases List.mem_append.mp htm with hmem | hmem
      · obtain ⟨w, -, rfl⟩ := List.mem_map.mp hmem
        have ho : o ≠ .timingMark := ht _ List.mem_cons_self
        exact ho
      · exact hframed.negotiates t hmem
    length := by
      intro _
      have hbytes := length_reactionBytes side o (e.heard side o enable).2
      rw [hsent, List.length_append]
      simp [Token.isWord, Token.isAsk]
      omega
    asks := by
      rw [List.countP_append, List.countP_map]
      simpa [Token.isWord, Token.isAsk, Function.comp_def] using hasks }

/-- A token that says nothing, unless of the timing mark, leaves every other
option as it is. -/
theorem Heeds.of_unheard {limit : Nat} {e e' : Engine} {t : Token} {sent : List UInt8}
    {us : List Token} (ht : ∀ o, o ≠ .timingMark → ∀ side, words side o [t] = [])
    (hsettings : e'.settings = e.settings)
    (hagrees : ∀ o side, (e'.options.get o).agrees side = (e.options.get o).agrees side)
    (hstanding : ∀ o, o ≠ .timingMark → ∀ side,
      e'.options.standing o side = e.options.standing o side)
    (hreads : Reads limit sent us)
    (hwords : ∀ o, o ≠ .timingMark → ∀ side, words side o us = [])
    (hnegotiates : t.Tame → ∀ u ∈ us, u.Negotiates)
    (hlength : t.Tame → sent.length ≤ [t].countP Token.isAsk * e.longest)
    (hasks : us.countP Token.isAsk = 0) : Heeds limit e [t] e' sent us where
  settings := hsettings
  agrees := hagrees
  reads := hreads
  standing o ho side := by
    rw [hstanding o ho side, ht o ho side]
    rfl
  answers o ho side := by
    rw [hwords o ho, ht o ho side]
    rfl
  negotiates h := hnegotiates (h t List.mem_cons_self)
  length h := by
    have hbound := hlength (h t List.mem_cons_self)
    omega
  asks := by omega

theorem words_of_not_isWord {t : Token} (ht : t.isWord = false) (side : Side)
    (o : OptionCode) : words side o [t] = [] := by
  cases t with
  | word => contradiction
  | data => rfl
  | command => rfl
  | frame => rfl

/-- A token without a word changes nothing that is negotiated. -/
theorem Heeds.of_not_word {limit : Nat} {e e' : Engine} {t : Token} {sent : List UInt8}
    {us : List Token} (ht : t.isWord = false) (hsettings : e'.settings = e.settings)
    (hoptions : e'.options = e.options) (hreads : Reads limit sent us)
    (hwords : ∀ side o, words side o us = [])
    (hnegotiates : t.Tame → ∀ u ∈ us, u.Negotiates)
    (hlength : t.Tame → sent.length ≤ [t].countP Token.isAsk * e.longest)
    (hasks : us.countP Token.isAsk = 0) : Heeds limit e [t] e' sent us :=
  of_unheard (fun o _ side => words_of_not_isWord ht side o) hsettings (by simp [hoptions])
    (by simp [hoptions]) hreads (fun o _ side => hwords side o) hnegotiates hlength hasks

namespace Engine

theorem accept_eq (e : Engine) (b : UInt8) :
    ∃ d, (e.accept b).1 = { e with decoder := d } ∧ (e.accept b).2.sent = [] := by
  unfold accept
  split
  · exact ⟨_, rfl, rfl⟩
  · split <;> exact ⟨_, rfl, rfl⟩

theorem onCommand_eq (e : Engine) (c : Command) :
    (e.onCommand c).1.settings = e.settings ∧ (e.onCommand c).1.options = e.options ∧
      ((e.onCommand c).2.sent = [] ∨ (e.onCommand c).2.sent = e.encode presence) := by
  unfold onCommand
  repeat' split
  all_goals simp

/-- A subnegotiation is answered only if it asks for a value, and with nothing but a
value of an option that is on. -/
theorem interpret_eq (e : Engine) (o : OptionCode) (payload : List UInt8) :
    (e.interpret o payload).1.settings = e.settings ∧
      (e.interpret o payload).1.options = e.options ∧
      ((e.interpret o payload).2.sent = [] ∨
        Token.isAsk (.frame (o.code :: payload)) = true ∧ e.options.isOn o .ours = true ∧
          (e.interpret o payload).2.sent = e.valueBytes o) := by
  unfold interpret
  split
  next ho =>
      split
      next rest =>
          have hask : Token.isAsk (.frame (o.code :: 1 :: rest)) = true := by
            rcases ho with rfl | rfl <;> rfl
          by_cases hon : e.options.isOn o .ours = true
          · exact ⟨rfl, rfl, Or.inr ⟨hask, hon, if_pos hon⟩⟩
          · exact ⟨rfl, rfl, Or.inl (if_neg hon)⟩
      next => split <;> exact ⟨rfl, rfl, Or.inl rfl⟩
      next => exact ⟨rfl, rfl, Or.inl rfl⟩
  next =>
      repeat' split
      all_goals exact ⟨rfl, rfl, Or.inl rfl⟩

end Engine

theorem words_map_data (side : Side) (o : OptionCode) (data : List UInt8) :
    words side o (data.map .data) = [] := by
  simp [words, Token.wordOn?, List.filterMap_eq_nil_iff]

theorem countP_isAsk_map_data (data : List UInt8) :
    (data.map Token.data).countP Token.isAsk = 0 := by
  simp [List.countP_eq_zero, Token.isAsk]

namespace Heeds

theorem perform_command (limit : Nat) (e : Engine) (c : Command) :
    ∃ us, Heeds limit e [.command c] (e.onCommand c).1 (e.onCommand c).2.sent us := by
  obtain ⟨hsettings, hoptions, hsent | hsent⟩ := e.onCommand_eq c
  · rw [hsent]
    exact ⟨[], of_not_word rfl hsettings hoptions (Reads.nil limit) (by simp) (by simp)
      (by simp) rfl⟩
  · rw [hsent]
    exact ⟨_, of_not_word rfl hsettings hoptions (Reads.escape limit _ _) (by
      intro side o
      exact words_map_data side o _) False.elim False.elim
      (countP_isAsk_map_data _)⟩

theorem perform_frame (limit : Nat) (e : Engine) (kept : List UInt8) :
    ∃ us, Heeds limit e [.frame kept] (e.perform (.frame kept)).1
      (e.perform (.frame kept)).2.sent us := by
  cases kept with
  | nil =>
      exact ⟨[], of_not_word rfl rfl rfl (Reads.nil limit) (by simp) (by simp)
        (by simp [Engine.perform]) rfl⟩
  | cons code payload =>
      obtain ⟨hsettings, hoptions, hsent | ⟨hask, -, hsent⟩⟩ := e.interpret_eq ⟨code⟩ payload
      · refine ⟨[], of_not_word rfl hsettings hoptions ?_ (by simp) (by simp) ?_ rfl⟩
        · rw [Engine.perform, hsent]
          exact Reads.nil limit
        · simp [Engine.perform, hsent]
      · obtain ⟨us, hreads, hframed, hasks⟩ := e.reads_valueBytes limit ⟨code⟩
        refine ⟨us, of_not_word rfl hsettings hoptions ?_ hframed.words_eq
          (fun _ => hframed.negotiates) ?_ hasks⟩
        · rwa [Engine.perform, hsent]
        · have hlength := e.length_valueBytes ⟨code⟩
          rw [Engine.perform, hsent]
          simpa [List.countP_singleton, hask] using fun _ => hlength

theorem words_timingMark {o : OptionCode} (ho : o ≠ .timingMark) (side other : Side)
    (enable : Bool) : words side o [.word other .timingMark enable] = [] :=
  words_word_of_ne enable fun h => ho h.2.symm

theorem perform_word (limit : Nat) (e : Engine) (side : Side) (o : OptionCode)
    (enable : Bool) :
    ∃ us, Heeds limit e [.word side o enable] (e.onNegotiation side o enable).1
      (e.onNegotiation side o enable).2.sent us := by
  unfold Engine.onNegotiation
  split
  next ho =>
      subst ho
      have hwild : ∀ {P : Prop}, (Token.word side .timingMark enable).Tame → P :=
        fun h => absurd rfl h
      have hunheard := fun o (ho : o ≠ OptionCode.timingMark) other =>
        words_timingMark ho other side enable
      unfold Engine.hearTimingMark
      split
      next =>
          refine ⟨_, of_unheard hunheard rfl (fun _ _ => rfl) (fun _ _ _ => rfl)
            (Reads.negotiation limit .ours .timingMark _) ?_ hwild hwild rfl⟩
          intro o ho other
          exact words_timingMark ho other _ _
      next => exact Heeds.hear limit e .ours .timingMark false
      next =>
          refine ⟨[], of_unheard hunheard rfl ?_ ?_ (Reads.nil limit) (by simp) hwild hwild rfl⟩
          · exact fun o other => OptionTable.agrees_reset ..
          · exact fun o ho other => OptionTable.standing_reset_of_ne _ _ _ _ _ ho
  next => exact Heeds.hear limit e side o enable

theorem perform (limit : Nat) (e : Engine) (t : Token) :
    ∃ us, Heeds limit e [t] (e.perform t).1 (e.perform t).2.sent us := by
  cases t with
  | data b =>
      obtain ⟨d, haccept, hsent⟩ := e.accept_eq b
      refine ⟨[], of_not_word rfl ?_ ?_ ?_ (by simp) (by simp) ?_ rfl⟩
      · rw [Engine.perform, haccept]
      · rw [Engine.perform, haccept]
      · rw [Engine.perform, hsent]
        exact Reads.nil limit
      · simp [Engine.perform, hsent]
  | command c => exact perform_command limit e c
  | word side o enable => exact perform_word limit e side o enable
  | frame kept => exact perform_frame limit e kept

theorem performAll (limit : Nat) (e : Engine) (ts : List Token) :
    ∃ us, Heeds limit e ts (e.performAll ts).1 (e.performAll ts).2.sent us := by
  induction ts generalizing e with
  | nil => exact ⟨[], of_options_eq rfl rfl⟩
  | cons t ts ih =>
      obtain ⟨us, hfirst⟩ := perform limit e t
      obtain ⟨us', hrest⟩ := ih (e.perform t).1
      exact ⟨us ++ us', hfirst.trans hrest⟩

theorem step (limit : Nat) (e : Engine) (b : UInt8) :
    ∃ us, Heeds limit e (e.reader.read b).2 (e.step b).1 (e.step b).2.sent us := by
  rw [Engine.step_eq]
  obtain ⟨us, h⟩ := performAll limit (e.moved (e.reader.read b).1) (e.reader.read b).2
  have hmoved : Heeds limit e [] (e.moved (e.reader.read b).1) [] [] := of_options_eq rfl rfl
  exact ⟨us, hmoved.trans h⟩

/-- Decoding is hearing the words in the bytes. -/
theorem decode (limit : Nat) (e : Engine) (bytes : List UInt8) :
    ∃ us, Heeds limit e (e.reader.tokens bytes) (e.decode bytes).1
      (e.decode bytes).2.sent us := by
  induction bytes generalizing e with
  | nil => exact ⟨[], of_options_eq rfl rfl⟩
  | cons b bytes ih =>
      obtain ⟨us, hfirst⟩ := step limit e b
      obtain ⟨us', hrest⟩ := ih (e.step b).1
      rw [Engine.reader_step] at hrest
      exact ⟨us ++ us', hfirst.trans hrest⟩

end Heeds

end RemoteConsole.Telnet
