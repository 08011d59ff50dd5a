/-
What the peer takes our window size to be.  Whoever has been told of every change
made while the option was on, and once whenever it went on, knows the size; that
the telling is still under way does not matter.
-/
import RemoteConsole.Proofs.Telnet.Convergence

namespace RemoteConsole.Telnet

/-- The window size that a token tells, if it tells one. -/
def Token.size? : Token → Option (UInt16 × UInt16)
  | .frame (code :: c₁ :: c₀ :: r₁ :: r₀ :: _) =>
      if code = OptionCode.windowSize.code then
        some (Engine.word c₁ c₀, Engine.word r₁ r₀)
      else none
  | _ => none

/-- What is known of a window size after some tokens, if `known` was known before. -/
def told (known : Option (UInt16 × UInt16)) (ts : List Token) : Option (UInt16 × UInt16) :=
  ts.foldl (fun known t => t.size?.or known) known

theorem told_append (known : Option (UInt16 × UInt16)) (ts us : List Token) :
    told known (ts ++ us) = told (told known ts) us :=
  List.foldl_append

theorem told_of_silent (known : Option (UInt16 × UInt16)) {ts : List Token}
    (h : ∀ t ∈ ts, t.size? = none) : told known ts = known := by
  induction ts generalizing known with
  | nil => rfl
  | cons t ts ih =>
      have hfirst : t.size? = none := h t List.mem_cons_self
      have hrest := ih known fun t' ht' => h t' (List.mem_cons_of_mem t ht')
      rw [told, List.foldl_cons, hfirst]
      exact hrest

theorem size?_frame_of_ne {o : OptionCode} (h : o ≠ .windowSize) (kept : List UInt8) :
    Token.size? (.frame (o.code :: kept)) = none := by
  have hcode : o.code ≠ OptionCode.windowSize.code := by
    intro heq
    cases o
    exact h (congrArg OptionCode.mk heq)
  unfold Token.size?
  split
  next hframe =>
      obtain ⟨rfl, -⟩ := List.cons.inj (Token.frame.inj hframe)
      exact if_neg hcode
  next => rfl

/-- Four bytes are needed to tell a size. -/
theorem size?_frame_of_short {payload : List UInt8}
    (h : ∀ c₁ c₀ r₁ r₀ rest, payload = c₁ :: c₀ :: r₁ :: r₀ :: rest → False) :
    Token.size? (.frame (OptionCode.windowSize.code :: payload)) = none := by
  unfold Token.size?
  split
  next hframe =>
      obtain ⟨-, rfl⟩ := List.cons.inj (Token.frame.inj hframe)
      exact (h _ _ _ _ _ rfl).elim
  next => rfl

theorem size?_map_data (data : List UInt8) : ∀ t ∈ data.map Token.data, t.size? = none := by
  intro t ht
  obtain ⟨b, -, rfl⟩ := List.mem_map.mp ht
  rfl

theorem size?_map_word (side : Side) (o : OptionCode) (ws : List Bool) :
    ∀ t ∈ ws.map (Token.word side o), t.size? = none := by
  intro t ht
  obtain ⟨w, -, rfl⟩ := List.mem_map.mp ht
  rfl

namespace Engine

/-! The end that is told. -/

theorem windowSize_frame (e : Engine) (kept : List UInt8) :
    (e.perform (.frame kept)).1.peer.windowSize =
      (Token.size? (.frame kept)).or e.peer.windowSize := by
  cases kept with
  | nil => rfl
  | cons code payload =>
      change (e.interpret ⟨code⟩ payload).1.peer.windowSize = _
      unfold interpret
      by_cases ho : (⟨code⟩ : OptionCode) = .windowSize
      · obtain rfl : code = OptionCode.windowSize.code := congrArg OptionCode.code ho
        rw [if_neg (by decide), if_pos rfl]
        split
        · rfl
        next hshort =>
            rw [size?_frame_of_short hshort]
            rfl
      · rw [size?_frame_of_ne ho, if_neg ho]
        repeat' split
        all_goals rfl

theorem windowSize_perform (e : Engine) (t : Token) :
    (e.perform t).1.peer.windowSize = t.size?.or e.peer.windowSize := by
  cases t with
  | data b =>
      obtain ⟨d, haccept, -⟩ := e.accept_eq b
      rw [perform, haccept]
      rfl
  | command c =>
      simp only [perform, onCommand]
      repeat' split
      all_goals rfl
  | word side o enable =>
      simp only [perform, onNegotiation, hearTimingMark, hear]
      repeat' split
      all_goals rfl
  | frame kept => exact e.windowSize_frame kept

theorem windowSize_performAll (e : Engine) (ts : List Token) :
    (e.performAll ts).1.peer.windowSize = told e.peer.windowSize ts := by
  induction ts generalizing e with
  | nil => rfl
  | cons t ts ih =>
      change ((e.perform t).1.performAll ts).1.peer.windowSize = _
      rw [ih, windowSize_perform]
      rfl

theorem windowSize_decode (e : Engine) (bytes : List UInt8) :
    (e.decode bytes).1.peer.windowSize = told e.peer.windowSize (e.reader.tokens bytes) := by
  induction bytes generalizing e with
  | nil => rfl
  | cons b bytes ih =>
      change ((e.step b).1.decode bytes).1.peer.windowSize =
        told e.peer.windowSize ((e.reader.read b).2 ++ (e.reader.read b).1.tokens bytes)
      rw [ih, reader_step, told_append, step_eq, windowSize_performAll]
      rfl

/-! The end that tells. -/

/-- The two bytes of a number make it up again. -/
theorem word_bytes (n : UInt16) : word (n >>> 8).toUInt8 n.toUInt8 = n := by
  have hn : n.toNat < 65536 := n.toNat_lt
  have hhigh : n.toNat >>> 8 % 256 = n.toNat / 256 := by
    rw [Nat.shiftRight_eq_div_pow]
    omega
  have hroom : (n.toNat / 256) <<< 8 % 65536 = (n.toNat / 256) <<< 8 := by
    rw [Nat.shiftLeft_eq]
    omega
  have hlow : n.toNat % 256 < 2 ^ 8 := Nat.mod_lt _ (by decide)
  apply UInt16.toNat_inj.mp
  simp only [word, UInt16.toNat_or, UInt16.toNat_shiftLeft, UInt8.toNat_toUInt16,
    UInt16.toNat_toUInt8, UInt16.toNat_shiftRight]
  change (n.toNat >>> 8 % 256) <<< 8 % 65536 ||| n.toNat % 256 = n.toNat
  rw [hhigh, hroom, ← Nat.shiftLeft_add_eq_or_of_lt hlow, Nat.shiftLeft_eq]
  omega

/-- The window size as the owner has set it. -/
def size (e : Engine) : UInt16 × UInt16 :=
  (e.settings.columns, e.settings.rows)

/-- What is known of our window size is how it is, while the option is on. -/
def Current (e : Engine) (known : Option (UInt16 × UInt16)) : Prop :=
  e.options.isOn .windowSize .ours = true → known = some e.size

end Engine

/-- What an engine goes over to and sends, which reads as `us`: if its window size was
known, it will be. -/
structure Informs (limit : Nat) (e : Engine) (next : Engine × Output) (us : List Token) :
    Prop where
  reads : Reads limit next.2.sent us
  current : ∀ known, e.Current known → next.1.Current (told known us)

theorem told_value {limit : Nat} (hlimit : 4 ≤ limit) (e : Engine) (o : OptionCode) :
    ∃ us, Reads limit (e.valueBytes o) us ∧
      ∀ known, told known us = if o = .windowSize then some e.size else known := by
  by_cases ho : o = .windowSize
  · subst ho
    refine ⟨_, Reads.subnegotiation limit .windowSize _ (by decide), ?_⟩
    intro known
    rw [List.take_of_length_le hlimit, if_pos rfl]
    change some (Engine.word _ _, Engine.word _ _) = some (_, _)
    rw [Engine.word_bytes, Engine.word_bytes]
  · obtain ⟨us, hreads, htold⟩ := e.reads_value limit o
    refine ⟨us, hreads, ?_⟩
    intro known
    rw [if_neg ho]
    apply told_of_silent
    intro t ht
    obtain ⟨kept, rfl, -⟩ := htold t ht
    exact size?_frame_of_ne ho kept

theorem told_followUp {limit : Nat} (hlimit : 4 ≤ limit) (e : Engine) (o : OptionCode)
    (side : Side) :
    ∃ us, Reads limit (e.followUp o side) us ∧ ∀ known,
      told known us = if side = .ours ∧ o = .windowSize then some e.size else known := by
  cases side with
  | ours =>
      obtain ⟨us, hreads, htold⟩ := told_value hlimit e o
      refine ⟨us, hreads, ?_⟩
      simpa using htold
  | theirs =>
      rw [Engine.followUp_theirs]
      split
      next ho =>
          have hcode : o.code ≠ iac := by
            rcases ho with rfl | rfl <;> decide
          refine ⟨_, Reads.subnegotiation limit o [1] hcode, ?_⟩
          intro known
          rw [List.take_of_length_le (Nat.le_trans (by decide) hlimit)]
          simp [told, Token.size?]
      next => exact ⟨[], Reads.nil limit, by simp [told]⟩

namespace Informs

variable {limit : Nat} {e : Engine}

/-- Where neither the size changes nor the option goes on, nothing need be told. -/
theorem of_silent {next : Engine × Output} {us : List Token}
    (hreads : Reads limit next.2.sent us) (hus : ∀ t ∈ us, t.size? = none)
    (hsettings : next.1.settings = e.settings)
    (hon : next.1.options.isOn .windowSize .ours = true →
      e.options.isOn .windowSize .ours = true) : Informs limit e next us where
  reads := hreads
  current := by
    intro known hknown hnext
    rw [told_of_silent known hus, hknown (hon hnext), Engine.size, Engine.size, hsettings]

theorem of_options_eq {next : Engine × Output} {us : List Token}
    (hreads : Reads limit next.2.sent us) (hus : ∀ t ∈ us, t.size? = none)
    (hsettings : next.1.settings = e.settings) (hoptions : next.1.options = e.options) :
    Informs limit e next us := by
  apply of_silent hreads hus hsettings
  rw [hoptions]
  exact id

theorem nil : Informs limit e (e, {}) [] :=
  of_options_eq (Reads.nil limit) (by simp) rfl rfl

theorem trans {e' e'' : Engine} {first rest : Output} {us vs : List Token}
    (h : Informs limit e (e', first) us) (h' : Informs limit e' (e'', rest) vs) :
    Informs limit e (e'', first ++ rest) (us ++ vs) where
  reads := h.reads.append h'.reads
  current := by
    intro known hknown
    rw [told_append]
    exact h'.current _ (h.current known hknown)

/-! What the peer sends. -/

theorem hear (hlimit : 4 ≤ limit) (e : Engine) (side : Side) (o : OptionCode)
    (enable : Bool) : ∃ us, Informs limit e (e.hear side o enable) us := by
  rw [Engine.hear_eq]
  let next := e.heard side o enable
  have hanswer := reads_reactionBytes limit side o next.2
  have hsilent := size?_map_word side.other o next.2.words
  have hother : ¬(side = .ours ∧ o = .windowSize) →
      next.1.isOn .windowSize .ours = e.options.isOn .windowSize .ours := by
    intro hne
    apply congrArg Standing.isOn
    apply OptionTable.standing_step_of_ne
    exact fun heq => hne ⟨heq.1.symm, heq.2.symm⟩
  dsimp only
  split
  next hsame =>
      refine ⟨_, of_silent hanswer hsilent rfl ?_⟩
      intro hnext
      by_cases hself : side = .ours ∧ o = .windowSize
      · obtain ⟨rfl, rfl⟩ := hself
        exact hsame.symm.trans hnext
      · exact (hother hself).symm.trans hnext
  next =>
      by_cases hon : next.1.isOn o side = true
      · -- the option may have gone on, and then the size is told
        rw [if_pos hon]
        obtain ⟨us, hreads, htold⟩ :=
          told_followUp hlimit { e with options := next.1 } o side
        refine ⟨_, hanswer.append hreads, ?_⟩
        intro known hknown hnext
        rw [told_append, told_of_silent known hsilent, htold]
        split
        next => rfl
        next hself => exact hknown ((hother hself).symm.trans hnext)
      · rw [if_neg hon]
        refine ⟨_, of_silent (hanswer.append (Reads.nil limit)) ?_ rfl ?_⟩
        · rwa [List.append_nil]
        · intro hnext
          by_cases hself : side = .ours ∧ o = .windowSize
          · obtain ⟨rfl, rfl⟩ := hself
            exact absurd hnext hon
          · exact (hother hself).symm.trans hnext

theorem onNegotiation (hlimit : 4 ≤ limit) (e : Engine) (side : Side) (o : OptionCode)
    (enable : Bool) : ∃ us, Informs limit e (e.onNegotiation side o enable) us := by
  unfold Engine.onNegotiation
  split
  next =>
      unfold Engine.hearTimingMark
      split
      next =>
          refine ⟨_, of_options_eq (Reads.negotiation limit .ours .timingMark _) ?_ rfl rfl⟩
          simp [Token.size?]
      next => exact hear hlimit e .ours .timingMark false
      next =>
          refine ⟨[], of_silent (Reads.nil limit) (by simp) rfl ?_⟩
          intro hnext
          rw [← hnext]
          apply congrArg Standing.isOn
          exact (OptionTable.standing_reset_of_ne _ _ _ _ _ (by decide)).symm
  next => exact hear hlimit e side o enable

/-- A value is told again when it is asked for. -/
theorem frame (hlimit : 4 ≤ limit) (e : Engine) (kept : List UInt8) :
    ∃ us, Informs limit e (e.perform (.frame kept)) us := by
  cases kept with
  | nil => exact ⟨[], nil⟩
  | cons code payload =>
      change ∃ us, Informs limit e (e.interpret ⟨code⟩ payload) us
      obtain ⟨hsettings, hoptions, hsent | ⟨-, -, hsent⟩⟩ := e.interpret_eq ⟨code⟩ payload
      · refine ⟨[], of_options_eq ?_ (by simp) hsettings hoptions⟩
        rw [hsent]
        exact Reads.nil limit
      · obtain ⟨us, hreads, htold⟩ := told_value hlimit e ⟨code⟩
        rw [← hsent] at hreads
        refine ⟨us, hreads, ?_⟩
        intro known hknown hnext
        have hsize : (e.interpret ⟨code⟩ payload).1.size = e.size := by
          rw [Engine.size, Engine.size, hsettings]
        rw [hoptions] at hnext
        rw [htold, hsize, hknown hnext, ite_self]

theorem perform (hlimit : 4 ≤ limit) (e : Engine) (t : Token) :
    ∃ us, Informs limit e (e.perform t) us := by
  cases t with
  | data b =>
      obtain ⟨d, haccept, hsent⟩ := e.accept_eq b
      refine ⟨[], of_options_eq ?_ (by simp) ?_ ?_⟩
      · rw [Engine.perform, hsent]
        exact Reads.nil limit
      · rw [Engine.perform, haccept]
      · rw [Engine.perform, haccept]
  | command c =>
      obtain ⟨hsettings, hoptions, hsent | hsent⟩ := e.onCommand_eq c
      · refine ⟨[], of_options_eq ?_ (by simp) hsettings hoptions⟩
        rw [Engine.perform, hsent]
        exact Reads.nil limit
      · have hreads := Reads.escape limit e.writesBinary Engine.presence
        refine ⟨_, of_options_eq ?_ (size?_map_data (padded e.writesBinary Engine.presence))
          hsettings hoptions⟩
        rwa [Engine.perform, hsent]
  | word side o enable => exact onNegotiation hlimit e side o enable
  | frame kept => exact frame hlimit e kept

theorem decode (hlimit : 4 ≤ limit) (e : Engine) (bytes : List UInt8) :
    ∃ us, Informs limit e (e.decode bytes) us := by
  apply Engine.decode_induction (R := fun e next => ∃ us, Informs limit e next us)
  · intro e
    exact ⟨[], nil⟩
  · rintro e next last ⟨us, hnext⟩ ⟨vs, hlast⟩
    exact ⟨us ++ vs, hnext.trans hlast⟩
  · rintro e r next ⟨us, hnext⟩
    exact ⟨us, hnext.reads, hnext.current⟩
  · intro e t
    exact perform hlimit e t

end Informs

/-! Calls. -/

/-- Tame calls, and changes of the window size. -/
def Call.Sizing : Call → Prop
  | .resize .. => True
  | c => c.Tame

instance : DecidablePred Call.Sizing
  | .request _ _ _ => instDecidableNot
  | .permit _ _ _ | .encode _ | .resize _ _ => .isTrue trivial
  | .decode _ | .urgent | .command _ | .timingMark | .subnegotiation _ _
  | .setTerminalType _ | .setTerminalSpeed _ => .isFalse id

theorem Standing.isOn_of_isOn_wish {s : Standing} {enable : Bool}
    (h : (s.wish enable).1.isOn = true) : s.isOn = true := by
  cases enable <;> cases s <;> first | rfl | exact absurd h (by decide)

namespace Engine

variable {limit : Nat}

/-- A change of the size is told at once, if the option is on. -/
theorem sent_resize (e : Engine) (columns rows : UInt16) :
    (e.call (.resize columns rows)).2.sent =
      if e.options.isOn .windowSize .ours = true then
        (e.call (.resize columns rows)).1.valueBytes .windowSize
      else [] := rfl

theorem utters_resize (limit : Nat) (e : Engine) (columns rows : UInt16) :
    ∃ us, Utters limit e (.resize columns rows) us := by
  obtain ⟨us, hreads, hframed, -⟩ :=
    (e.call (.resize columns rows)).1.reads_valueBytes limit .windowSize
  by_cases hon : e.options.isOn .windowSize .ours = true
  · refine ⟨us, Utters.of_unsaid ?_ ?_ hframed.words_eq (fun _ _ => rfl) rfl fun _ _ => rfl⟩
    · rwa [sent_resize, if_pos hon]
    · intro t ht
      exact (hframed.negotiates t ht).tame
  · refine ⟨[], Utters.of_unsaid ?_ (by simp) (by simp) (fun _ _ => rfl) rfl fun _ _ => rfl⟩
    rw [sent_resize, if_neg hon]
    exact Reads.nil limit

theorem utters_call (limit : Nat) (e : Engine) {call : Call} (h : call.Sizing) :
    ∃ us, Utters limit e call us := by
  cases call with
  | resize columns rows => exact e.utters_resize limit columns rows
  | request side o enable => exact e.call_tame limit h
  | permit side o value => exact e.call_tame limit h
  | encode data => exact e.call_tame limit h
  | _ => exact h.elim

theorem informs_resize (hlimit : 4 ≤ limit) (e : Engine) (columns rows : UInt16) :
    ∃ us, Informs limit e (e.call (.resize columns rows)) us := by
  obtain ⟨us, hreads, htold⟩ :=
    told_value hlimit (e.call (.resize columns rows)).1 .windowSize
  by_cases hon : e.options.isOn .windowSize .ours = true
  · refine ⟨us, ?_, ?_⟩
    · rwa [sent_resize, if_pos hon]
    · intro known _ _
      exact htold known
  · refine ⟨[], ?_, ?_⟩
    · rw [sent_resize, if_neg hon]
      exact Reads.nil limit
    · intro known _ hnext
      exact absurd hnext hon

theorem informs_call (hlimit : 4 ≤ limit) (e : Engine) {call : Call} (h : call.Sizing) :
    ∃ us, Informs limit e (e.call call) us := by
  cases call with
  | resize columns rows => exact e.informs_resize hlimit columns rows
  | request side o enable =>
      rw [call_request]
      refine ⟨_, Informs.of_silent (reads_reactionBytes limit side o _)
        (size?_map_word _ _ _) rfl ?_⟩
      intro hnext
      by_cases hself : Side.ours = side ∧ OptionCode.windowSize = o
      · obtain ⟨rfl, rfl⟩ := hself
        apply Standing.isOn_of_isOn_wish
        rw [← standing_wished]
        exact hnext
      · rw [← hnext]
        apply congrArg Standing.isOn
        exact (standing_wished_of_ne e enable hself).symm
  | permit side o value =>
      refine ⟨[], Informs.of_silent (Reads.nil limit) (by simp) rfl ?_⟩
      intro hnext
      rw [← hnext]
      apply congrArg Standing.isOn
      exact (OptionTable.standing_permit ..).symm
  | encode data =>
      exact ⟨_, Informs.of_options_eq (Reads.escape limit e.writesBinary data)
        (size?_map_data _) rfl rfl⟩
  | _ => exact h.elim

/-- Only what is decoded says anything of the peer. -/
theorem peer_call (e : Engine) {call : Call} (h : call.Sizing) :
    (e.call call).1.peer = e.peer := by
  cases call with
  | resize columns rows => rfl
  | request side o enable => rfl
  | permit side o value => rfl
  | encode data => rfl
  | _ => exact h.elim

end Engine

/-! Runs. -/

namespace Connection

def Move.Sizing : Move → Prop
  | .call c => c.Sizing
  | .take => True
  | .receive _ => True

instance : DecidablePred Move.Sizing
  | .call c => inferInstanceAs (Decidable c.Sizing)
  | .take | .receive _ => .isTrue trivial

variable {c : Connection}

theorem Attuned.act_sizing (h : c.Attuned) {m : Move} (hm : m.Sizing) : (c.act m).Attuned := by
  cases m with
  | call call =>
      obtain ⟨us, hutters⟩ := c.near.engine.utters_call c.far.engine.reader.limit hm
      exact h.utter hutters
  | take => exact h.take
  | receive count => exact h.receive count

theorem limit_act {m : Move} (hm : m.Sizing) :
    (c.act m).near.engine.reader.limit = c.near.engine.reader.limit := by
  cases m with
  | call call =>
      obtain ⟨us, hutters⟩ := c.near.engine.utters_call 0 hm
      exact congrArg Reader.limit hutters.reader
  | take => rfl
  | receive count =>
      have hreader := c.near.engine.reader_decode (c.chunk count)
      exact (congrArg Reader.limit hreader).trans (Reader.limit_after _ _)

/-- Reading on changes nothing about what is known once all is read. -/
theorem told_act (h : c.Attuned) {m : Move} (hm : m.Sizing) :
    told (c.act m).near.engine.peer.windowSize (c.act m).ahead =
      told c.near.engine.peer.windowSize c.ahead := by
  cases m with
  | call call =>
      obtain ⟨us, hutters⟩ := c.near.engine.utters_call 0 hm
      have hpeer : (c.act (.call call)).near.engine.peer = c.near.engine.peer :=
        c.near.engine.peer_call hm
      rw [ahead_call hutters, hpeer]
  | take => rfl
  | receive count =>
      obtain ⟨us, hreceipt⟩ := h.receipt count
      have hheard : (c.act (.receive count)).near.engine.peer.windowSize =
          told c.near.engine.peer.windowSize (c.heard count) :=
        c.near.engine.windowSize_decode (c.chunk count)
      rw [hheard, hreceipt.ahead, told_append]

/-- What the far end will know of the near end's window size, once it has read all
that is under way, is how it is. -/
structure Informed (c : Connection) : Prop where
  attuned : c.Attuned
  limit : 4 ≤ c.far.engine.reader.limit
  current : c.near.engine.Current (told c.far.engine.peer.windowSize c.swap.ahead)

theorem informed_start (near far : Setup) (h : 4 ≤ far.settings.subnegotiationLimit) :
    (start near far).Informed where
  attuned := attuned_start near far
  limit := h
  current := by
    intro hon
    change (near.engine.options.standing .windowSize .ours).isOn = true at hon
    rw [Setup.standing_engine] at hon
    exact absurd hon (by decide)

/-- The near end moves. -/
theorem Informed.act (h : c.Informed) {m : Move} (hm : m.Sizing) : (c.act m).Informed where
  attuned := h.attuned.act_sizing hm
  limit := by
    cases m <;> exact h.limit
  current := by
    cases m with
    | call call =>
        obtain ⟨us, hinforms⟩ := c.near.engine.informs_call h.limit hm
        have hahead : (c.act (.call call)).swap.ahead = c.swap.ahead ++ us :=
          (h.attuned.sent hinforms.reads).2
        rw [hahead, told_append]
        exact hinforms.current _ h.current
    | take =>
        rw [ahead_take]
        exact h.current
    | receive count =>
        obtain ⟨us, hinforms⟩ := Informs.decode h.limit c.near.engine (c.chunk count)
        have hahead : (c.act (.receive count)).swap.ahead = c.swap.ahead ++ us :=
          (h.attuned.sent hinforms.reads).2
        rw [hahead, told_append]
        exact hinforms.current _ h.current

/-- The far end moves. -/
theorem Informed.act_far (h : c.Informed) {m : Move} (hm : m.Sizing) :
    (c.swap.act m).swap.Informed where
  attuned := (h.attuned.swap.act_sizing hm).swap
  limit := by
    change 4 ≤ (c.swap.act m).near.engine.reader.limit
    rw [limit_act hm]
    exact h.limit
  current := by
    change (c.swap.act m).far.engine.Current
      (told (c.swap.act m).near.engine.peer.windowSize (c.swap.act m).ahead)
    rw [told_act h.attuned.swap hm]
    cases m <;> exact h.current

theorem Informed.step (h : c.Informed) {m : End × Move} (hm : m.2.Sizing) :
    (c.step m).Informed := by
  obtain ⟨e, m⟩ := m
  cases e with
  | near => exact h.act hm
  | far => exact h.act_far hm

theorem Informed.run (h : c.Informed) {moves : List (End × Move)}
    (hmoves : ∀ m ∈ moves, m.2.Sizing) : (c.run moves).Informed := by
  apply run_induction (P := Informed) _ h hmoves
  intro c m hm h
  exact h.step hm

/-- Whenever nothing is under way and the near end tells its window size, the far end
knows it as it is, however often the size was changed and the option switched. -/
theorem window_size_current (near far : Setup)
    (hlimit : 4 ≤ far.settings.subnegotiationLimit) {moves : List (End × Move)}
    (hmoves : ∀ m ∈ moves, m.2.Sizing) :
    let c := (start near far).run moves
    c.Quiet → c.near.engine.options.isOn .windowSize .ours = true →
      c.far.engine.peer.windowSize =
        some (c.near.engine.settings.columns, c.near.engine.settings.rows) := by
  intro c hquiet hon
  have hinformed : c.Informed := (informed_start near far hlimit).run hmoves
  have hahead : c.swap.ahead = [] := congrArg c.far.engine.reader.tokens hquiet.1
  have hcurrent := hinformed.current hon
  rw [hahead] at hcurrent
  exact hcurrent

/-- The size changes while it is asked for, while it is told, cut within a doubled
byte, and while the option is off. -/
theorem window_size_current_toggled :
    let near : Setup := { weCan := [.windowSize] }
    let far : Setup :=
      { settings := { subnegotiationLimit := 4 }, theyShould := [.windowSize] }
    let made : List (End × Move) :=
      [(.near, .call (.request .ours .windowSize true)), (.near, .take), (.far, .receive 3),
        (.near, .call (.resize 132 43)), (.far, .take), (.near, .receive 3),
        (.near, .call (.resize 511 65280)), (.near, .take), (.far, .receive 14),
        (.near, .call (.request .ours .windowSize false)), (.near, .take),
        (.far, .receive 100), (.near, .call (.resize 255 255)),
        (.near, .call (.request .ours .windowSize true)), (.far, .take), (.near, .receive 3),
        (.near, .take), (.far, .receive 3), (.far, .take), (.near, .receive 3),
        (.near, .take), (.far, .receive 100)]
    4 ≤ far.settings.subnegotiationLimit ∧ (∀ m ∈ made, m.2.Sizing) ∧
      ((start near far).run made).Quiet ∧
      ((start near far).run made).near.engine.options.isOn .windowSize .ours = true ∧
      ((start near far).run made).far.engine.peer.windowSize = some (255, 255) := by
  intro near far made
  have hlimit : 4 ≤ far.settings.subnegotiationLimit := by decide
  have hsizing : ∀ m ∈ made, m.2.Sizing := by decide
  have hquiet : ((start near far).run made).Quiet := by decide +kernel
  have hon : ((start near far).run made).near.engine.options.isOn .windowSize .ours = true := by
    decide +kernel
  have hcolumns : ((start near far).run made).near.engine.settings.columns = 255 := by
    decide +kernel
  have hrows : ((start near far).run made).near.engine.settings.rows = 255 := by
    decide +kernel
  have hcurrent := window_size_current near far hlimit hsizing hquiet hon
  rw [hcolumns, hrows] at hcurrent
  exact ⟨hlimit, hsizing, hquiet, hon, hcurrent⟩

end Connection

end RemoteConsole.Telnet
