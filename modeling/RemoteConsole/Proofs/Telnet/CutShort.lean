/-
Subnegotiations that nobody ends.  The next command ends one just as its own end would
have: whatever comes after it, the stream is read as if the end had been there.
-/
import RemoteConsole.Proofs.Telnet.Subnegotiation

namespace RemoteConsole.Telnet

/-- A subnegotiation whose end is missing. -/
def opened (o : OptionCode) (payload : List UInt8) : List UInt8 :=
  [iac, Command.subnegotiation.code, o.code] ++ doubled payload

/-- One missing end after another, then a command that cuts the last subnegotiation short,
and anything after it. -/
def cutShort (frames : List (OptionCode × List UInt8)) (c : UInt8) (rest : List UInt8) :
    List UInt8 :=
  (frames.flatMap fun frame => opened frame.1 frame.2) ++ iac :: c :: rest

/-- The same with every subnegotiation ended. -/
def wellEnded (frames : List (OptionCode × List UInt8)) (c : UInt8) (rest : List UInt8) :
    List UInt8 :=
  (frames.flatMap fun frame => subnegotiation frame.1 frame.2) ++ iac :: c :: rest

theorem opened_ended (o : OptionCode) (payload : List UInt8) :
    opened o payload ++ [iac, Command.subnegotiationEnd.code] = subnegotiation o payload := rfl

theorem cutShort_cons (o : OptionCode) (payload : List UInt8)
    (frames : List (OptionCode × List UInt8)) (c : UInt8) (rest : List UInt8) :
    cutShort ((o, payload) :: frames) c rest = opened o payload ++ cutShort frames c rest := by
  simp [cutShort]

theorem wellEnded_cons (o : OptionCode) (payload : List UInt8)
    (frames : List (OptionCode × List UInt8)) (c : UInt8) (rest : List UInt8) :
    wellEnded ((o, payload) :: frames) c rest =
      subnegotiation o payload ++ wellEnded frames c rest := by
  simp [wellEnded]

/-- A command that neither doubles the 255 nor ends the subnegotiation under way. -/
def Cuts (c : UInt8) : Prop :=
  c ≠ iac ∧ c ≠ Command.subnegotiationEnd.code

instance : DecidablePred Cuts :=
  fun _ => instDecidableAnd

/-- The subnegotiation before it is cut by the first of the frames, if there is one. -/
theorem exists_cut (frames : List (OptionCode × List UInt8)) {c : UInt8} (hc : Cuts c)
    (rest : List UInt8) :
    ∃ d rest', Cuts d ∧ cutShort frames c rest = iac :: d :: rest' := by
  cases frames with
  | nil => exact ⟨c, rest, hc, rfl⟩
  | cons frame frames =>
      have hopening : Cuts Command.subnegotiation.code := by decide
      exact ⟨_, _, hopening, rfl⟩

namespace Engine

/-- The end of a subnegotiation leaves the decoder where it is put. -/
theorem endSubnegotiation_decoder (e : Engine) (d : Decoder) :
    { e with decoder := d }.endSubnegotiation =
      ({ e.endSubnegotiation.1 with decoder := d }, e.endSubnegotiation.2) := by
  rw [endSubnegotiation_eq, endSubnegotiation_eq]
  change { e with decoder := d, received := Log.empty }.perform (.frame e.received.toList) =
    ({ ({ e with received := Log.empty }.perform (.frame e.received.toList)).1 with decoder := d },
      ({ e with received := Log.empty }.perform (.frame e.received.toList)).2)
  rw [perform_frame e d .empty, perform_frame e e.decoder .empty]

/-- Within a subnegotiation a command is read as it is after the end. -/
theorem decode_cut (e : Engine) (hd : e.decoder = .subnegotiating) {c : UInt8} (hc : Cuts c)
    (rest : List UInt8) :
    e.decode (iac :: c :: rest) =
      e.decode (iac :: Command.subnegotiationEnd.code :: iac :: c :: rest) := by
  obtain ⟨hiac, hend⟩ := hc
  let inside : Engine := { e with decoder := .subnegotiatingCommand }
  let ended := e.endSubnegotiation
  let after : Engine := { ended.1 with decoder := .command }
  have hopen : e.step iac = (inside, {}) := by
    simp [step, hd, inside]
  -- without the end: the command itself ends the subnegotiation
  have hcut : inside.step c = ((after.readCommand c).1, ended.2 ++ (after.readCommand c).2) := by
    have hinside := e.endSubnegotiation_decoder .subnegotiatingCommand
    simp only [step, inside, hiac, hend, if_false, hinside]
    rfl
  -- with the end: it is over before the command comes
  have hse : inside.step Command.subnegotiationEnd.code =
      ({ ended.1 with decoder := .idle }, ended.2) := by
    have hne : Command.subnegotiationEnd.code ≠ iac := by decide
    simp only [step, inside, hne, if_false, if_true]
    exact e.endSubnegotiation_decoder .idle
  have hagain : { ended.1 with decoder := .idle }.step iac = (after, {}) := by
    simp [step, readData, after]
  have hread : after.step c = after.readCommand c := rfl
  simp only [decode, hopen, hcut, hse, hagain, hread, Output.nil_append, Output.append_assoc]

/-- A subnegotiation whose end is missing is still under way. -/
theorem decoder_decode_opened (e : Engine) (hidle : e.decoder = .idle) (o : OptionCode)
    (payload : List UInt8) (ho : o.code ≠ iac) :
    (e.decode (opened o payload)).1.decoder = .subnegotiating := by
  have hreader : e.reader.decoder = .idle := by simp [reader, hidle]
  obtain ⟨hinside, -, htokens⟩ := e.reader.after_opened o payload hreader ho
  unfold opened
  rw [e.decode_of_tokens_eq_nil (by simp [hidle]) htokens]
  simp only [moved, hinside]
  rfl

theorem decoder_decode_subnegotiation (e : Engine) (hidle : e.decoder = .idle) (o : OptionCode)
    (payload : List UInt8) (ho : o.code ≠ iac) :
    (e.decode (subnegotiation o payload)).1.decoder = .idle := by
  let kept := o.code :: payload.take e.settings.subnegotiationLimit
  have hframe := e.perform_frame e.decoder .empty kept
  rw [e.decode_subnegotiation hidle o payload ho]
  exact (congrArg (·.1.decoder) hframe).trans hidle

/-- One missing end makes no difference. -/
theorem decode_opened_cut (e : Engine) (hidle : e.decoder = .idle) (o : OptionCode)
    (payload : List UInt8) (ho : o.code ≠ iac) {c : UInt8} (hc : Cuts c) (rest : List UInt8) :
    e.decode (opened o payload ++ iac :: c :: rest) =
      e.decode (subnegotiation o payload ++ iac :: c :: rest) := by
  have hinside := e.decoder_decode_opened hidle o payload ho
  calc
    e.decode (opened o payload ++ iac :: c :: rest)
      = e.decode (opened o payload ++
          iac :: Command.subnegotiationEnd.code :: iac :: c :: rest) := by
        rw [decode_append, decode_append, decode_cut _ hinside hc]
    _ = e.decode (subnegotiation o payload ++ iac :: c :: rest) := by
        rw [← opened_ended, List.append_assoc]
        rfl

/-- Whatever cuts subnegotiations short, the stream is read as if each had been ended. -/
theorem decode_cutShort (e : Engine) (hidle : e.decoder = .idle)
    {frames : List (OptionCode × List UInt8)} (hcodes : ∀ frame ∈ frames, frame.1.code ≠ iac)
    {c : UInt8} (hc : Cuts c) (rest : List UInt8) :
    e.decode (cutShort frames c rest) = e.decode (wellEnded frames c rest) := by
  induction frames generalizing e with
  | nil => rfl
  | cons frame frames ih =>
      obtain ⟨o, payload⟩ := frame
      have ho : o.code ≠ iac := hcodes _ List.mem_cons_self
      obtain ⟨d, rest', hd, htail⟩ := exists_cut frames hc rest
      have hfirst : e.decode (opened o payload ++ cutShort frames c rest) =
          e.decode (subnegotiation o payload ++ cutShort frames c rest) := by
        rw [htail]
        exact e.decode_opened_cut hidle o payload ho hd rest'
      have hrest := ih (e.decode (subnegotiation o payload)).1
        (e.decoder_decode_subnegotiation hidle o payload ho)
        fun frame hframe => hcodes frame (List.mem_cons_of_mem _ hframe)
      rw [cutShort_cons, wellEnded_cons, hfirst, decode_append, hrest, ← decode_append]

/-- Subnegotiations that are cut short, one by the next and the last by any command, are
read as if each had been ended, whatever comes after and however the bytes are cut. -/
theorem cut_read_as_ended (e : Engine) (hidle : e.isIdle = true)
    (frames : List (OptionCode × List UInt8)) (hcodes : ∀ frame ∈ frames, frame.1.code ≠ iac)
    (c : UInt8) (hc : Cuts c) (rest : List UInt8) {cut ended : List (List UInt8)}
    (hcut : cut.flatten = cutShort frames c rest)
    (hended : ended.flatten = wellEnded frames c rest) :
    e.calls (cut.map .decode) = e.calls (ended.map .decode) := by
  have hdecoder : e.decoder = .idle := by simpa [isIdle] using hidle
  rw [calls_map_decode, calls_map_decode, hcut, hended]
  exact e.decode_cutShort hdecoder hcodes hc rest

/-- A payload longer than is kept, cut by a subnegotiation that a request cuts in turn. -/
theorem cut_read_as_ended_twice :
    let frames : List (OptionCode × List UInt8) :=
      [(.terminalType, [0, 86, 84, 255, 50]), (⟨40⟩, [255, 240])]
    let cut : List (List UInt8) :=
      [[255, 250, 24, 0, 86, 84, 255], [255, 50, 255], [250, 40, 255, 255, 240, 255],
        [253, 3, 65]]
    let ended : List (List UInt8) :=
      [[255, 250, 24, 0, 86, 84, 255, 255, 50, 255, 240],
        [255, 250, 40, 255, 255, 240, 255, 240, 255, 253, 3, 65]]
    let e := Setup.engine
      { settings := { subnegotiationLimit := 3 }, weCan := [.suppressGoAhead] }
    let f := e.calls (cut.map .decode)
    e.isIdle = true ∧ (∀ frame ∈ frames, frame.1.code ≠ iac) ∧ Cuts Command.do.code ∧
      cut.flatten = cutShort frames Command.do.code [3, 65] ∧
      ended.flatten = wellEnded frames Command.do.code [3, 65] ∧
      f = e.calls (ended.map .decode) ∧
      f.2 = { clean := [65], sent := [255, 251, 3]
              events := [.terminalType "VT", .subnegotiation ⟨40⟩ [255, 240],
                .switched .suppressGoAhead .ours true] } := by
  intro frames cut ended e f
  have hidle : e.isIdle = true := rfl
  have hcodes : ∀ frame ∈ frames, frame.1.code ≠ iac := by decide
  have hc : Cuts Command.do.code := by decide
  have hcut : cut.flatten = cutShort frames Command.do.code [3, 65] := by decide
  have hended : ended.flatten = wellEnded frames Command.do.code [3, 65] := by decide
  have houtput : f.2 = { clean := [65], sent := [255, 251, 3]
                         events := [.terminalType "VT", .subnegotiation ⟨40⟩ [255, 240],
                           .switched .suppressGoAhead .ours true] } := by
    decide +kernel
  exact ⟨hidle, hcodes, hc, hcut, hended,
    cut_read_as_ended e hidle frames hcodes _ hc _ hcut hended, houtput⟩

end Engine

end RemoteConsole.Telnet
