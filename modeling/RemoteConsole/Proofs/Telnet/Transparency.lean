/-
Whatever protocol an owner mixes with data, the data comes out as it went in, and
the commands as they were sent.
-/
import RemoteConsole.Proofs.Telnet.Calls
import RemoteConsole.Proofs.Telnet.Data

namespace RemoteConsole.Telnet

/-- Calls that send and leave the mode alone. -/
inductive Call.Transparent : Call → Prop where
  | encode (data : List UInt8) : Transparent (.encode data)
  | request (side : Side) {o : OptionCode} (enable : Bool) (ho : o ≠ .binary) :
      Transparent (.request side o enable)
  | command {c : Command} (hc : c.isStandalone = true) : Transparent (.command c)
  | timingMark : Transparent .timingMark
  | subnegotiation {o : OptionCode} (payload : List UInt8) (ho : o.code ≠ iac) :
      Transparent (.subnegotiation o payload)

theorem Command.report_of_isStandalone {c : Command} (hc : c.isStandalone = true) :
    (Token.command c).report? = some c := by
  have hend : c ≠ .subnegotiationEnd := by
    rintro rfl
    exact absurd hc (by decide)
  have hknown : c.isKnown = true := by
    simp only [Command.isStandalone, Bool.or_eq_true, Bool.and_eq_true, decide_eq_true_eq] at hc
    rw [Command.isKnown, decide_eq_true_eq]
    rcases hc with ⟨hlow, -⟩ | ⟨hlow, -⟩
    · exact hlow
    · exact UInt8.le_of_lt (UInt8.lt_trans (by decide) hlow)
  simp [Token.report?, hend, hknown]

namespace Engine

/-- Where an engine takes the stream up: between commands, dropping nothing, in the
mode that the sender writes in. -/
structure Receptive (receiver sender : Engine) : Prop where
  idle : receiver.decoder = .idle
  synchronizing : receiver.synchronizing = 0
  mode : receiver.readsBinary = sender.writesBinary

/-- What is sent besides data reads as tokens that are no data and say nothing of the
mode. -/
theorem call_transparent (limit : Nat) (e : Engine) {c : Call} (hc : c.Transparent) :
    (∃ data, c = .encode data) ∨
      c.data = [] ∧ (e.call c).1.writesBinary = e.writesBinary ∧
        ∃ us, Reads limit (e.call c).2.sent us ∧ (∀ t ∈ us, t.isData = false) ∧
          words .theirs .binary us = [] ∧ us.filterMap Token.report? = c.command?.toList := by
  cases hc with
  | encode data => exact Or.inl ⟨data, rfl⟩
  | @request side o enable ho =>
      right
      rw [call_request]
      let reaction := (e.wished side o enable).2
      refine ⟨rfl, ?_, _, reads_reactionBytes limit side o reaction, ?_, ?_, ?_⟩
      · have hne : ¬(Side.ours = side ∧ OptionCode.binary = o) := by
          rintro ⟨-, rfl⟩
          exact ho rfl
        exact congrArg Standing.isOn (e.standing_wished_of_ne enable hne)
      · intro t ht
        obtain ⟨w, -, rfl⟩ := List.mem_map.mp ht
        rfl
      · apply words_map_word_of_ne
        rintro ⟨-, rfl⟩
        exact ho rfl
      · simp [Token.report?, Call.command?]
  | @command c hc =>
      right
      refine ⟨rfl, rfl, _, Reads.command limit hc, by simp [Token.isData], rfl, ?_⟩
      simp [Command.report_of_isStandalone hc, Call.command?]
  | timingMark =>
      right
      have hstanding := OptionTable.standing_reset_of_ne e.options .timingMark .theirs .enabling
        .ours (show OptionCode.binary ≠ .timingMark by decide)
      exact ⟨rfl, congrArg Standing.isOn hstanding, _,
        Reads.negotiation limit .theirs .timingMark true, by simp [Token.isData], rfl, rfl⟩
  | @subnegotiation o payload ho =>
      right
      exact ⟨rfl, rfl, _, Reads.subnegotiation limit o payload ho, by simp [Token.isData], rfl,
        rfl⟩

/-- One call is received as it was made. -/
theorem Receptive.call {receiver sender : Engine} (h : Receptive receiver sender) {c : Call}
    (hc : c.Transparent) :
    let f := receiver.decode (sender.call c).2.sent
    Receptive f.1 (sender.call c).1 ∧ f.2.clean = c.data ∧
      f.2.commands = c.command?.toList := by
  intro f
  rcases sender.call_transparent receiver.reader.limit hc with
    ⟨data, rfl⟩ | ⟨hdata, hwrites, us, hreads, hus, hwords, hreport⟩
  · have hf : f = (receiver, { clean := data }) := by
      have hdecode := receiver.decode_escape h.idle h.synchronizing data
      rw [h.mode] at hdecode
      exact hdecode
    rw [hf]
    exact ⟨h, rfl, rfl⟩
  · obtain ⟨hidle, hsilent⟩ := receiver.decode_messages h.idle hreads hus
    have hreader : receiver.reader.decoder = .idle := by simp [reader, h.idle]
    have htokens := (hreads receiver.reader hreader rfl).2
    have hmode : f.1.readsBinary = receiver.readsBinary :=
      receiver.readsBinary_decode (htokens ▸ hwords)
    refine ⟨⟨hidle, hsilent.synchronizing h.synchronizing, ?_⟩, ?_, ?_⟩
    · rw [hmode, h.mode, hwrites]
    · rw [hsilent.clean, hdata]
    · rw [hsilent.commands, hreport]

/-- So is every run of calls. -/
theorem Receptive.calls {receiver sender : Engine} (h : Receptive receiver sender)
    {calls : List Call} (hcalls : ∀ c ∈ calls, c.Transparent) :
    let f := receiver.decode (sender.calls calls).2.sent
    Receptive f.1 (sender.calls calls).1 ∧ f.2.clean = calls.flatMap Call.data ∧
      f.2.commands = calls.filterMap Call.command? := by
  induction calls generalizing receiver sender with
  | nil => exact ⟨h, rfl, rfl⟩
  | cons c calls ih =>
      obtain ⟨hfirst, hclean, hcommands⟩ := h.call (hcalls c List.mem_cons_self)
      obtain ⟨hrest, hclean', hcommands'⟩ :=
        ih hfirst fun c' hc' => hcalls c' (List.mem_cons_of_mem c hc')
      have hsent : (sender.calls (c :: calls)).2.sent =
          (sender.call c).2.sent ++ ((sender.call c).1.calls calls).2.sent := rfl
      rw [hsent, decode_append]
      refine ⟨hrest, ?_, ?_⟩
      · rw [Output.clean_append, hclean, hclean', List.flatMap_cons]
      · rw [Output.commands_append, hcommands, hcommands', List.filterMap_cons]
        cases c.command? <;> rfl

/-- Protocol traffic never corrupts data: in whatever chunks the bytes of a run of
calls arrive, they yield the data and the commands that were sent, in order. -/
theorem traffic_transparent (sender receiver : Engine) {calls : List Call}
    (hcalls : ∀ c ∈ calls, c.Transparent) (hidle : receiver.isIdle = true)
    (hsynchronizing : receiver.synchronizing = 0)
    (hmode : receiver.readsBinary = sender.writesBinary) {chunks : List (List UInt8)}
    (hchunks : chunks.flatten = (sender.calls calls).2.sent) :
    let f := receiver.calls (chunks.map .decode)
    f.2.clean = calls.flatMap Call.data ∧ f.1.isIdle = true ∧
      f.2.commands = calls.filterMap Call.command? := by
  intro f
  have hreceptive : Receptive receiver sender := by
    refine ⟨?_, hsynchronizing, hmode⟩
    simpa [isIdle] using hidle
  obtain ⟨hafter, hclean, hcommands⟩ := hreceptive.calls hcalls
  have hf : f = receiver.decode (sender.calls calls).2.sent := by
    rw [← hchunks]
    exact receiver.calls_map_decode chunks
  rw [hf]
  refine ⟨hclean, ?_, hcommands⟩
  simpa [isIdle] using hafter.idle

/-- A carriage return, a doubled byte and a payload, cut within. -/
theorem traffic_transparent_cut :
    let calls : List Call :=
      [.encode [65, 13], .request .ours .echo true, .encode [10, 255], .command .areYouThere,
        .timingMark, .subnegotiation ⟨40⟩ [255, 240], .encode [13]]
    let chunks : List (List UInt8) :=
      [[65, 13], [0, 255], [251, 1, 10, 255], [255, 255, 246, 255, 253], [6, 255, 250, 40, 255],
        [255, 240, 255], [240, 13, 0]]
    let f := (Setup.engine {}).calls (chunks.map .decode)
    chunks.flatten = ((Setup.engine {}).calls calls).2.sent ∧
      f.2.clean = [65, 13, 10, 255, 13] ∧ f.1.isIdle = true ∧
      f.2.commands = [.areYouThere] := by
  intro calls chunks
  have hcalls : ∀ c ∈ calls, c.Transparent := by
    intro c hc
    simp only [calls, List.mem_cons, List.not_mem_nil, or_false] at hc
    rcases hc with rfl | rfl | rfl | rfl | rfl | rfl | rfl
    all_goals
      constructor
      try decide
  have hchunks : chunks.flatten = ((Setup.engine {}).calls calls).2.sent := by decide +kernel
  have htransparent := traffic_transparent (Setup.engine {}) (Setup.engine {}) hcalls
    (by decide) rfl rfl hchunks
  exact ⟨hchunks, htransparent⟩

end Engine

end RemoteConsole.Telnet
