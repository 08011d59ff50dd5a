/-
A subnegotiation as it is received.  Whatever the payload, and however its bytes are cut,
it comes to one thing at the other end, and to nothing else.
-/
import RemoteConsole.Proofs.Telnet.Calls
import RemoteConsole.Proofs.Telnet.Messages

namespace RemoteConsole.Telnet

/-- What an engine makes of a subnegotiation of which it has kept some of the payload: what
the peer has said of itself by then, and what the engine gives off. -/
inductive Meaning (e : Engine) : OptionCode → List UInt8 → Peer → Output → Prop where
  /-- An option that the engine has no use for is reported as it is. -/
  | plain {o : OptionCode} (kept : List UInt8) (htype : o ≠ .terminalType)
      (hspeed : o ≠ .terminalSpeed) (hsize : o ≠ .windowSize) :
      Meaning e o kept e.peer { events := [.subnegotiation o kept] }
  | terminalType (value : List UInt8) :
      Meaning e .terminalType (0 :: value)
        { e.peer with terminalType := some (Text.decodeLossy value) }
        { events := [.terminalType (Text.decodeLossy value)] }
  | terminalSpeed (value : List UInt8) :
      Meaning e .terminalSpeed (0 :: value)
        { e.peer with terminalSpeed := some (Text.decodeLossy value) }
        { events := [.terminalSpeed (Text.decodeLossy value)] }
  | windowSize (c₁ c₀ r₁ r₀ : UInt8) (rest : List UInt8) :
      Meaning e .windowSize (c₁ :: c₀ :: r₁ :: r₀ :: rest)
        { e.peer with windowSize := some (Engine.word c₁ c₀, Engine.word r₁ r₀) }
        { events := [.windowSize (Engine.word c₁ c₀) (Engine.word r₁ r₀)] }
  /-- Fewer than four bytes are no window size. -/
  | shortSize {kept : List UInt8} (hshort : kept.length < 4) :
      Meaning e .windowSize kept e.peer { events := [.subnegotiation .windowSize kept] }
  /-- Whoever asks for a value is told it exactly while our side of the option is on. -/
  | typeAsked (rest : List UInt8) :
      Meaning e .terminalType (1 :: rest) e.peer
        { sent :=
            if e.options.isOn .terminalType .ours then
              subnegotiation .terminalType (0 :: Text.encode e.settings.terminalType)
            else [] }
  | speedAsked (rest : List UInt8) :
      Meaning e .terminalSpeed (1 :: rest) e.peer
        { sent :=
            if e.options.isOn .terminalSpeed .ours then
              subnegotiation .terminalSpeed (0 :: Text.encode e.settings.speedValue)
            else [] }
  /-- A value is neither told nor asked for. -/
  | malformed {o : OptionCode} {kept : List UInt8}
      (ho : o = .terminalType ∨ o = .terminalSpeed) (htold : kept.head? ≠ some 0)
      (hasked : kept.head? ≠ some 1) : Meaning e o kept e.peer {}

theorem Meaning.clean {e : Engine} {o : OptionCode} {kept : List UInt8} {peer : Peer}
    {output : Output} (h : Meaning e o kept peer output) : output.clean = [] := by
  cases h <;> rfl

namespace Engine

/-- What an engine makes of a subnegotiation is what it means. -/
theorem meaning_interpret (e : Engine) (o : OptionCode) (kept : List UInt8) :
    Meaning e o kept (e.interpret o kept).1.peer (e.interpret o kept).2 := by
  unfold interpret
  split
  next ho =>
      split
      · -- the value is asked for
        rcases ho with rfl | rfl
        · exact Meaning.typeAsked _
        · exact Meaning.speedAsked _
      · rcases ho with rfl | rfl
        · exact Meaning.terminalType _
        · exact Meaning.terminalSpeed _
      next hasked htold =>
        apply Meaning.malformed ho
        · intro hhead
          obtain ⟨value, hkept⟩ := List.head?_eq_some_iff.mp hhead
          exact htold value hkept
        · intro hhead
          obtain ⟨rest, hkept⟩ := List.head?_eq_some_iff.mp hhead
          exact hasked rest hkept
  next ho =>
      obtain ⟨htype, hspeed⟩ := not_or.mp ho
      split
      next hsize =>
          subst hsize
          split
          · exact Meaning.windowSize _ _ _ _ _
          next hfour =>
            apply Meaning.shortSize
            match kept, hfour with
            | [], _ | [_], _ | [_, _], _ | [_, _, _], _ => simp
            | c₁ :: c₀ :: r₁ :: r₀ :: rest, hfour => exact (hfour c₁ c₀ r₁ r₀ rest rfl).elim
      next hsize => exact Meaning.plain kept htype hspeed hsize

/-- A subnegotiation has one meaning. -/
theorem eq_interpret_of_meaning {e : Engine} {o : OptionCode} {kept : List UInt8} {peer : Peer}
    {output : Output} (h : Meaning e o kept peer output) :
    peer = (e.interpret o kept).1.peer ∧ output = (e.interpret o kept).2 := by
  cases h with
  | plain kept htype hspeed hsize => simp [interpret, htype, hspeed, hsize]
  | terminalType value => exact ⟨rfl, rfl⟩
  | terminalSpeed value => exact ⟨rfl, rfl⟩
  | windowSize c₁ c₀ r₁ r₀ rest => exact ⟨rfl, rfl⟩
  | shortSize hshort =>
      have hfour : ∀ c₁ c₀ r₁ r₀ rest, kept ≠ c₁ :: c₀ :: r₁ :: r₀ :: rest := by
        rintro c₁ c₀ r₁ r₀ rest rfl
        simp only [List.length_cons] at hshort
        omega
      unfold interpret
      rw [if_neg (by decide), if_pos rfl]
      split
      next hkept => exact absurd rfl (hfour _ _ _ _ _)
      next => exact ⟨rfl, rfl⟩
  | typeAsked rest => exact ⟨rfl, rfl⟩
  | speedAsked rest => exact ⟨rfl, rfl⟩
  | malformed ho htold hasked =>
      unfold interpret
      rw [if_pos ho]
      split
      · exact absurd rfl hasked
      · exact absurd rfl htold
      · exact ⟨rfl, rfl⟩

/-! Reading the bytes. -/

/-- While bytes complete no token, an engine does nothing but read on. -/
theorem decode_of_tokens_eq_nil (e : Engine) {bytes : List UInt8}
    (hcr : e.decoder ≠ .carriageReturn) (h : e.reader.tokens bytes = []) :
    e.decode bytes = (e.moved (e.reader.after bytes), {}) := by
  induction bytes generalizing e with
  | nil =>
      change (e, _) = (e.moved e.reader, _)
      rw [moved_reader]
  | cons b bytes ih =>
      obtain ⟨hfirst, hrest⟩ := List.append_eq_nil_iff.mp h
      have hstep : e.step b = (e.moved (e.reader.read b).1, {}) := by
        rw [step_eq, hfirst, performAll_nil]
      let next := e.moved (e.reader.read b).1
      have hreader : next.reader = (e.reader.read b).1 := by
        rw [← e.reader_step b, hstep]
      have hdecoder : next.decoder ≠ .carriageReturn := by
        have hread := (e.reader.decoder_read b).1
        simpa [next, moved, hcr] using hread
      have hdecode : next.decode bytes = (next.moved (next.reader.after bytes), {}) := by
        apply ih next hdecoder
        rw [hreader]
        exact hrest
      have hmoved : ∀ r, next.moved r = e.moved r := by
        intro r
        simp only [moved, hcr, hdecoder, and_false, if_false]
        rfl
      rw [decode, hstep]
      change ((next.decode bytes).1, ({} : Output) ++ (next.decode bytes).2) = _
      rw [hdecode, hmoved, hreader]
      rfl

/-- A whole subnegotiation is acted on once, with what was kept of it. -/
theorem decode_subnegotiation (e : Engine) (hidle : e.decoder = .idle) (o : OptionCode)
    (payload : List UInt8) (ho : o.code ≠ iac) :
    e.decode (subnegotiation o payload) =
      { e with received := .empty }.interpret o
        (payload.take e.settings.subnegotiationLimit) := by
  have hreader : e.reader.decoder = .idle := by simp [reader, hidle]
  obtain ⟨hd, hreceived, htokens⟩ := e.reader.after_opened o payload hreader ho
  have hopened := e.decode_of_tokens_eq_nil (by simp [hidle]) htokens
  rw [subnegotiation, decode_append, hopened]
  generalize e.reader.after _ = r at hd hreceived
  have hmoved : e.moved r = { e with decoder := .subnegotiating, received := r.received } := by
    simp [moved, hd]
  have hend : (e.moved r).decode [iac, Command.subnegotiationEnd.code] =
      { e with received := r.received }.endSubnegotiation := by
    rw [hmoved, ← e.with_decoder hidle]
    simp [decode, step, iac, Command.subnegotiationEnd]
  rw [hend, endSubnegotiation_eq, hreceived]
  rfl

/-- A subnegotiation that is sent is received as what it means, once, however its bytes are
cut: nothing of it is taken for data, and nothing is left of it. -/
theorem subnegotiation_received (sender receiver : Engine) {o : OptionCode} (ho : o.code ≠ iac)
    (payload : List UInt8) (hidle : receiver.isIdle = true) {chunks : List (List UInt8)}
    (hchunks : chunks.flatten = (sender.call (.subnegotiation o payload)).2.sent) :
    let f := receiver.calls (chunks.map .decode)
    let kept := payload.take receiver.settings.subnegotiationLimit
    ∃ peer output,
      f = ({ receiver with received := .empty, peer }, output) ∧
        f.1.isIdle = true ∧ f.2.clean = [] ∧
          ∀ peer' output', Meaning receiver o kept peer' output' ↔
            peer' = peer ∧ output' = output := by
  intro f kept
  have hdecoder : receiver.decoder = .idle := by simpa [isIdle] using hidle
  have hf : f = { receiver with received := .empty }.interpret o kept := by
    rw [← receiver.decode_subnegotiation hdecoder o payload ho]
    exact (receiver.calls_map_decode chunks).trans (congrArg _ hchunks)
  have hframe : f = ({ receiver with
      received := .empty
      peer := (receiver.interpret o kept).1.peer }, (receiver.interpret o kept).2) :=
    hf.trans (receiver.perform_frame receiver.decoder .empty (o.code :: kept))
  have hmeaning := receiver.meaning_interpret o kept
  refine ⟨_, _, hframe, ?_, ?_, ?_⟩
  · rw [hframe]
    exact hidle
  · rw [hframe]
    exact hmeaning.clean
  · intro peer' output'
    constructor
    · exact eq_interpret_of_meaning
    · rintro ⟨rfl, rfl⟩
      exact hmeaning

/-- A payload that looks like commands, longer than is kept, cut at its doubled bytes. -/
theorem subnegotiation_received_cut :
    let o : OptionCode := ⟨40⟩
    let payload : List UInt8 := [255, 240, 255, 251]
    let chunks : List (List UInt8) :=
      [[255, 250], [40, 255], [255, 240, 255], [255, 251, 255], [240]]
    let receiver := Setup.engine { settings := { subnegotiationLimit := 3 } }
    let f := receiver.calls (chunks.map .decode)
    o.code ≠ iac ∧ receiver.isIdle = true ∧
      chunks.flatten = ((Setup.engine {}).call (.subnegotiation o payload)).2.sent ∧
      f.1.isIdle = true ∧ f.2.clean = [] ∧ f.2.events = [.subnegotiation o [255, 240, 255]] := by
  intro o payload chunks receiver f
  have ho : o.code ≠ iac := by decide
  have hidle : receiver.isIdle = true := rfl
  have hchunks : chunks.flatten = ((Setup.engine {}).call (.subnegotiation o payload)).2.sent := by
    decide
  obtain ⟨peer, output, hf, hidle', hclean, hmeaning⟩ :=
    subnegotiation_received (Setup.engine {}) receiver ho payload hidle hchunks
  have hplain : Meaning receiver o [255, 240, 255] receiver.peer _ :=
    .plain [255, 240, 255] (by decide) (by decide) (by decide)
  obtain ⟨-, houtput⟩ := (hmeaning _ _).mp hplain
  refine ⟨ho, hidle, hchunks, hidle', hclean, ?_⟩
  rw [show f = _ from hf, ← houtput]

/-- The option code 255 is not doubled: it is read as the beginning of a command, and the
payload as data. -/
theorem subnegotiation_lost :
    let o : OptionCode := ⟨255⟩
    let e := Setup.engine {}
    let f := e.decode (e.call (.subnegotiation o [65, 66])).2.sent
    Meaning e o [65, 66] e.peer { events := [.subnegotiation o [65, 66]] } ∧
      f.2.clean = [66] ∧ f.2.events = [] := by
  intro o e f
  have hmeaning : Meaning e o [65, 66] e.peer { events := [.subnegotiation o [65, 66]] } :=
    .plain [65, 66] (by decide) (by decide) (by decide)
  have hf : f.2.clean = [66] ∧ f.2.events = [] := by decide +kernel
  exact ⟨hmeaning, hf⟩

end Engine

end RemoteConsole.Telnet
