/-
Data across a change of mode.  The writer escapes data by where its own side of the
binary option stands, the reader by where it takes the peer's side to stand; these
change at different times, but in the stream they change at the same place.
-/
import RemoteConsole.Proofs.Telnet.Connection
import RemoteConsole.Proofs.Telnet.Data

namespace RemoteConsole.Telnet

/-! The option of an owner who never asks for it, and of one who never ends it. -/

namespace Standing

/-- Never asked for by the owner. -/
def Yielding (s : Standing) : Prop :=
  s = .off ∨ s = .on ∨ s = .disabling

/-- Never ended by the owner. -/
def Welcoming (s : Standing) : Prop :=
  s = .off ∨ s = .on ∨ s = .enabling

theorem Yielding.wish {s : Standing} (h : s.Yielding) : (s.wish false).1.Yielding := by
  rcases h with rfl | rfl | rfl <;> simp [Standing.wish, requestDisable, Yielding]

theorem Welcoming.wish {s : Standing} (h : s.Welcoming) : (s.wish true).1.Welcoming := by
  rcases h with rfl | rfl | rfl <;> simp [Standing.wish, requestEnable, Welcoming]

theorem Yielding.hear {s : Standing} (h : s.Yielding) (agree w : Bool) :
    (s.hear agree w).1.Yielding := by
  rcases h with rfl | rfl | rfl <;> cases agree <;> cases w <;>
    simp [Standing.hear, receiveEnable, receiveDisable, Yielding]

theorem Welcoming.hear {s : Standing} (h : s.Welcoming) (agree w : Bool) :
    (s.hear agree w).1.Welcoming := by
  rcases h with rfl | rfl | rfl <;> cases agree <;> cases w <;>
    simp [Standing.hear, receiveEnable, receiveDisable, Welcoming]

theorem Yielding.heed {s : Standing} (h : s.Yielding) (agree : Bool) (ws : List Bool) :
    (s.heed agree ws).Yielding :=
  heed_induction (P := Yielding) (fun _ w hs => hs.hear agree w) h ws

theorem Welcoming.heed {s : Standing} (h : s.Welcoming) (agree : Bool) (ws : List Bool) :
    (s.heed agree ws).Welcoming :=
  heed_induction (P := Welcoming) (fun _ w hs => hs.hear agree w) h ws

end Standing

namespace Linked

variable {l r : Standing} {u v : List Bool}

/-- Once the second end has heard what is under way, it is on where the first is. -/
theorem isOn_heed (h : Linked l r u v) (hl : l.Yielding) (hr : r.Welcoming) (agree : Bool) :
    (r.heed agree u).isOn = l.isOn := by
  unfold Linked at h
  rcases hl with rfl | rfl | rfl <;> rcases hr with rfl | rfl | rfl <;>
    simp only [Standing.phase, underWay, List.mem_cons, List.not_mem_nil, or_false,
      Prod.mk.injEq] at h
  case inl.inr.inr => rcases h with ⟨rfl, -⟩ | ⟨rfl, -⟩ <;> rfl
  case inr.inr.inr.inr => rcases h with ⟨rfl, -⟩ | ⟨rfl, -⟩ <;> rfl
  all_goals
    obtain ⟨rfl, -⟩ := h
    rfl

/-- Nothing is said to an end that is off and has asked for nothing. -/
theorem eq_nil_of_off (h : Linked l .off u v) (hl : l.Yielding) : u = [] := by
  unfold Linked at h
  rcases hl with rfl | rfl | rfl <;> simp_all [Standing.phase, underWay]

end Linked

namespace Connection

/-- The far end once it has read all that is under way to it. -/
def outcome (c : Connection) : Engine × Output :=
  c.far.engine.decode c.near.unread

/-- The near end only ever ends binary mode, the far end only asks for it; and what
has been written is what the far end has yielded and will yield. -/
structure Faithful (c : Connection) (written : List UInt8) : Prop where
  attuned : c.Attuned
  yielding : (c.near.engine.options.standing .binary .ours).Yielding
  welcoming : (c.far.engine.options.standing .binary .theirs).Welcoming
  idle : c.outcome.1.decoder = .idle
  synchronizing : c.outcome.1.synchronizing = 0
  clean : c.far.clean ++ c.outcome.2.clean = written

theorem faithful_start (near far : Setup) : (start near far).Faithful [] where
  attuned := attuned_start near far
  yielding := by
    change (near.engine.options.standing .binary .ours).Yielding
    rw [Setup.standing_engine]
    exact Or.inl rfl
  welcoming := by
    change (far.engine.options.standing .binary .theirs).Welcoming
    rw [Setup.standing_engine]
    exact Or.inl rfl
  idle := rfl
  synchronizing := rfl
  clean := rfl

/-- Where the far end takes the near end's side to stand, once it has read all. -/
theorem standing_outcome (c : Connection) {o : OptionCode} (ho : o ≠ .timingMark)
    (side : Side) :
    c.outcome.1.options.standing o side =
      (c.far.engine.options.standing o side).heed ((c.far.engine.options.get o).agrees side)
        (words side o c.swap.ahead) := by
  obtain ⟨us, hheeds⟩ := Heeds.decode 0 c.far.engine c.near.unread
  exact hheeds.standing o ho side

theorem limit_outcome (c : Connection) :
    c.outcome.1.reader.limit = c.far.engine.reader.limit := by
  rw [outcome, Engine.reader_decode, Reader.limit_after]

/-- In the stream, both ends change their mode at the same place. -/
theorem Faithful.mode {c : Connection} {written : List UInt8} (h : c.Faithful written) :
    c.outcome.1.readsBinary = c.near.engine.writesBinary := by
  have hlinked := h.attuned.linked .binary (by decide) .ours
  have hon := hlinked.isOn_heed h.yielding h.welcoming
    ((c.far.engine.options.get .binary).agrees .theirs)
  change (c.outcome.1.options.standing .binary .theirs).isOn = _
  rw [c.standing_outcome (by decide)]
  exact hon

/-! The near end sends. -/

theorem outcome_of_sent {c c' : Connection} {sent : List UInt8}
    (hfar : c'.far.engine = c.far.engine) (hunread : c'.near.unread = c.near.unread ++ sent) :
    c'.outcome = ((c.outcome.1.decode sent).1, c.outcome.2 ++ (c.outcome.1.decode sent).2) := by
  unfold outcome
  rw [hfar, hunread, Engine.decode_append]

/-- Whole messages that are no data change nothing of what has been written. -/
theorem Faithful.of_silent {c c' : Connection} {written sent : List UInt8} {us : List Token}
    (h : c.Faithful written) (hattuned : c'.Attuned)
    (hyielding : (c'.near.engine.options.standing .binary .ours).Yielding)
    (hfar : c'.far.engine = c.far.engine) (hclean : c'.far.clean = c.far.clean)
    (hunread : c'.near.unread = c.near.unread ++ sent)
    (hreads : Reads c.far.engine.reader.limit sent us) (hus : ∀ t ∈ us, t.isData = false) :
    c'.Faithful written := by
  rw [← c.limit_outcome] at hreads
  obtain ⟨hidle, hsilent⟩ := c.outcome.1.decode_messages h.idle hreads hus
  have houtcome := outcome_of_sent hfar hunread
  exact {
    attuned := hattuned
    yielding := hyielding
    welcoming := by
      rw [hfar]
      exact h.welcoming
    idle := by
      rw [houtcome]
      exact hidle
    synchronizing := by
      rw [houtcome]
      exact hsilent.synchronizing h.synchronizing
    clean := by
      rw [houtcome, hclean, Output.clean_append, hsilent.clean, List.append_nil]
      exact h.clean }

theorem Faithful.take {c : Connection} {written : List UInt8} (h : c.Faithful written) :
    (c.act .take).Faithful written := by
  have houtcome : (c.act .take).outcome = c.outcome :=
    congrArg c.far.engine.decode c.near.unread_take
  exact {
    attuned := h.attuned.take
    yielding := h.yielding
    welcoming := h.welcoming
    idle := houtcome ▸ h.idle
    synchronizing := houtcome ▸ h.synchronizing
    clean := by
      rw [houtcome]
      exact h.clean }

theorem Faithful.write {c : Connection} {written : List UInt8} (h : c.Faithful written)
    (data : List UInt8) : (c.act (.call (.encode data))).Faithful (written ++ data) := by
  have hdecode : c.outcome.1.decode (c.near.engine.encode data) =
      (c.outcome.1, { clean := data }) := by
    unfold Engine.encode
    rw [← h.mode]
    exact c.outcome.1.decode_escape h.idle h.synchronizing data
  have houtcome : (c.act (.call (.encode data))).outcome =
      (c.outcome.1, c.outcome.2 ++ { clean := data }) := by
    have hsent : (c.act (.call (.encode data))).outcome =
        ((c.outcome.1.decode (c.near.engine.encode data)).1,
          c.outcome.2 ++ (c.outcome.1.decode (c.near.engine.encode data)).2) :=
      outcome_of_sent rfl (Party.unread_moved ..)
    rw [hsent, hdecode]
  exact {
    attuned := h.attuned.call trivial
    yielding := h.yielding
    welcoming := h.welcoming
    idle := by
      rw [houtcome]
      exact h.idle
    synchronizing := by
      rw [houtcome]
      exact h.synchronizing
    clean := by
      have hclean : c.far.clean ++ (c.outcome.2.clean ++ data) = written ++ data := by
        rw [← List.append_assoc, h.clean]
      rw [houtcome]
      exact hclean }

theorem Faithful.endBinary {c : Connection} {written : List UInt8} (h : c.Faithful written) :
    (c.act (.call (.request .ours .binary false))).Faithful written := by
  have hbinary : Call.Tame (.request .ours .binary false) := by decide
  refine h.of_silent (h.attuned.call hbinary) ?_ rfl rfl (Party.unread_moved ..)
    (reads_reactionBytes _ .ours .binary _) ?_
  · change ((c.near.engine.wished .ours .binary false).1.standing .binary .ours).Yielding
    rw [Engine.standing_wished]
    exact h.yielding.wish
  · intro t ht
    obtain ⟨w, -, rfl⟩ := List.mem_map.mp ht
    rfl

theorem Faithful.receive {c : Connection} {written : List UInt8} (h : c.Faithful written)
    (count : Nat) : (c.act (.receive count)).Faithful written := by
  obtain ⟨us, hreceipt⟩ := h.attuned.receipt count
  have hus := hreceipt.heeds.negotiates (h.attuned.tame_heard count)
  refine h.of_silent (h.attuned.receive count) ?_ rfl rfl (Party.unread_moved ..)
    hreceipt.heeds.reads ?_
  · rw [hreceipt.heeds.standing .binary (by decide) .ours]
    exact h.yielding.heed _ _
  · intro t ht
    exact (hus t ht).not_data

/-! The far end reads. -/

theorem Faithful.take_far {c : Connection} {written : List UInt8} (h : c.Faithful written) :
    (c.swap.act .take).swap.Faithful written where
  attuned := h.attuned.swap.take.swap
  yielding := h.yielding
  welcoming := h.welcoming
  idle := h.idle
  synchronizing := h.synchronizing
  clean := h.clean

theorem Faithful.receive_far {c : Connection} {written : List UInt8} (h : c.Faithful written)
    (count : Nat) : (c.swap.act (.receive count)).swap.Faithful written := by
  let c' := (c.swap.act (.receive count)).swap
  let first := c.far.engine.decode (c.swap.chunk count)
  have houtcome : c.outcome = (c'.outcome.1, first.2 ++ c'.outcome.2) := by
    have hunread : c.near.unread = c.swap.chunk count ++ c'.near.unread :=
      c.swap.unread_receive count
    unfold outcome
    rw [hunread, Engine.decode_append]
    rfl
  have hidle := h.idle
  have hsynchronizing := h.synchronizing
  have hclean := h.clean
  rw [houtcome] at hidle hsynchronizing hclean
  obtain ⟨us, hreceipt⟩ := h.attuned.swap.receipt count
  exact {
    attuned := (h.attuned.swap.receive count).swap
    yielding := h.yielding
    welcoming := by
      change ((c.swap.act (.receive count)).near.engine.options.standing .binary
        .theirs).Welcoming
      rw [hreceipt.heeds.standing .binary (by decide) .theirs]
      exact h.welcoming.heed _ _
    idle := hidle
    synchronizing := hsynchronizing
    clean := by
      rw [← hclean, Output.clean_append, ← List.append_assoc]
      rfl }

/-- What is under way to an end that asks for binary mode reads as it did: if the end
was off, nothing in it is about the mode. -/
theorem Faithful.outcome_askBinary {c : Connection} {written : List UInt8}
    (h : c.Faithful written) :
    let c' := (c.swap.act (.call (.request .theirs .binary true))).swap
    c'.outcome.1.decoder = .idle ∧ c'.outcome.1.synchronizing = 0 ∧
      c'.outcome.2.clean = c.outcome.2.clean := by
  intro c'
  rcases h.welcoming with hoff | hother
  · -- the engine changes, but to one that reads what is under way alike
    have hwords : words .theirs .binary c.swap.ahead = [] := by
      have hlinked := h.attuned.linked .binary (by decide) .ours
      rw [Side.other, hoff] at hlinked
      exact hlinked.eq_nil_of_off h.yielding
    have hmode : c.far.engine.readsBinary = c'.far.engine.readsBinary := by
      have hstanding := c.far.engine.standing_wished .theirs .binary true
      rw [hoff] at hstanding
      change (c.far.engine.options.standing .binary .theirs).isOn =
        ((c.far.engine.wished .theirs .binary true).1.standing .binary .theirs).isOn
      rw [hstanding, hoff]
      rfl
    have halike : Alike c.far.engine c'.far.engine := ⟨rfl, rfl, rfl, rfl, hmode⟩
    obtain ⟨hout, hclean⟩ := halike.decode hwords
    exact ⟨hout.decoder.symm.trans h.idle, hout.synchronizing.symm.trans h.synchronizing,
      hclean.symm⟩
  · -- asked for already, or on: nothing changes
    have hsame : (c.far.engine.wished .theirs .binary true).1 = c.far.engine.options := by
      refine OptionTable.step_eq_self _ _ _ _ ?_
      rcases hother with hon | henabling
      · rw [hon]
        rfl
      · rw [henabling]
        rfl
    have houtcome : c'.outcome = c.outcome := by
      change ({ c.far.engine with
        options := (c.far.engine.wished .theirs .binary true).1 }).decode c.near.unread = _
      rw [hsame]
      rfl
    rw [houtcome]
    exact ⟨h.idle, h.synchronizing, rfl⟩

theorem Faithful.askBinary {c : Connection} {written : List UInt8} (h : c.Faithful written) :
    (c.swap.act (.call (.request .theirs .binary true))).swap.Faithful written := by
  obtain ⟨hidle, hsynchronizing, hclean⟩ := h.outcome_askBinary
  have hbinary : Call.Tame (.request .theirs .binary true) := by decide
  exact {
    attuned := (h.attuned.swap.call hbinary).swap
    yielding := h.yielding
    welcoming := by
      change ((c.far.engine.wished .theirs .binary true).1.standing .binary
        .theirs).Welcoming
      rw [Engine.standing_wished]
      exact h.welcoming.wish
    idle := hidle
    synchronizing := hsynchronizing
    clean := by
      have hkept : (c.swap.act (.call (.request .theirs .binary true))).swap.far.clean =
          c.far.clean := List.append_nil _
      rw [hclean, hkept]
      exact h.clean }

/-! Runs. -/

/-- The moves about data and mode: the near end writes and ends binary mode, the far
end asks for it. -/
inductive Switches : End × Move → Prop where
  | write (data : List UInt8) : Switches (.near, .call (.encode data))
  | endBinary : Switches (.near, .call (.request .ours .binary false))
  | askBinary : Switches (.far, .call (.request .theirs .binary true))
  | take (e : End) : Switches (e, .take)
  | receive (e : End) (count : Nat) : Switches (e, .receive count)

/-- What a move writes at the near end. -/
def writtenBy : End × Move → List UInt8
  | (.near, .call c) => c.data
  | _ => []

def written (moves : List (End × Move)) : List UInt8 :=
  moves.flatMap writtenBy

theorem Faithful.step {c : Connection} {data : List UInt8} (h : c.Faithful data)
    {m : End × Move} (hm : Switches m) : (c.step m).Faithful (data ++ writtenBy m) := by
  cases hm with
  | write more => exact h.write more
  | endBinary => simpa [writtenBy, Call.data] using h.endBinary
  | askBinary => simpa [writtenBy] using h.askBinary
  | take e =>
      cases e with
      | near => simpa [writtenBy] using h.take
      | far => simpa [writtenBy] using h.take_far
  | receive e count =>
      cases e with
      | near => simpa [writtenBy] using h.receive count
      | far => simpa [writtenBy] using h.receive_far count

theorem Faithful.run {c : Connection} {data : List UInt8} (h : c.Faithful data)
    {moves : List (End × Move)} (hmoves : ∀ m ∈ moves, Switches m) :
    (c.run moves).Faithful (data ++ written moves) := by
  induction moves generalizing c data with
  | nil => simpa [written, Connection.run] using h
  | cons m moves ih =>
      have hstep := h.step (hmoves m List.mem_cons_self)
      have hrest := ih hstep fun m' hm' => hmoves m' (List.mem_cons_of_mem m hm')
      rwa [List.append_assoc] at hrest

theorem Faithful.isPrefix {c : Connection} {data : List UInt8} (h : c.Faithful data) :
    c.far.clean <+: data :=
  ⟨c.outcome.2.clean, h.clean⟩

theorem Faithful.clean_eq {c : Connection} {data : List UInt8} (h : c.Faithful data)
    (hunread : c.near.unread = []) : c.far.clean = data := by
  have hclean := h.clean
  have hnothing : c.outcome.2.clean = [] := by
    rw [outcome, hunread]
    rfl
  rwa [hnothing, List.append_nil] at hclean

/-! Ends that send at once. -/

/-- Each move, with all that it queued put on the wire. -/
def promptly (moves : List (End × Move)) : List (End × Move) :=
  moves.flatMap fun m => [m, (.near, .take), (.far, .take)]

theorem written_promptly (moves : List (End × Move)) :
    written (promptly moves) = written moves := by
  have hmove : ∀ m, [m, (.near, .take), (.far, .take)].flatMap writtenBy = writtenBy m :=
    fun m => List.append_nil (writtenBy m)
  unfold written promptly
  simp only [List.flatMap_assoc, hmove]

theorem switches_promptly {moves : List (End × Move)} (hmoves : ∀ m ∈ moves, Switches m) :
    ∀ m ∈ promptly moves, Switches m := by
  intro m hm
  obtain ⟨m', hm', hmem⟩ := List.mem_flatMap.mp hm
  simp only [List.mem_cons, List.not_mem_nil, or_false] at hmem
  rcases hmem with rfl | rfl | rfl
  · exact hmoves m hm'
  · exact .take .near
  · exact .take .far

/-- Nothing is left queued. -/
theorem outbound_promptly (c : Connection) (moves : List (End × Move))
    (hout : c.near.outbound = []) : (c.run (promptly moves)).near.outbound = [] := by
  induction moves generalizing c with
  | nil => exact hout
  | cons m moves ih =>
      have hrest := ih (((c.step m).step (.near, .take)).step (.far, .take)) rfl
      exact hrest

/-- Data survives a change of mode: what the far end has yielded is the beginning of
what was written at the near end, and all of it once the wire is empty. -/
theorem data_survives_switch (near far : Setup) {moves : List (End × Move)}
    (hmoves : ∀ m ∈ moves, Switches m) :
    let c := (start near far).run (promptly moves)
    c.far.clean <+: written moves ∧ (c.near.wire = [] → c.far.clean = written moves) := by
  intro c
  have hfaithful : c.Faithful (written moves) := by
    have hrun := (faithful_start near far).run (switches_promptly hmoves)
    rwa [List.nil_append, written_promptly] at hrun
  constructor
  · exact hfaithful.isPrefix
  · intro hwire
    have hout : c.near.outbound = [] := outbound_promptly _ moves rfl
    exact hfaithful.clean_eq (List.append_eq_nil_iff.mpr ⟨hwire, hout⟩)

/-- The near end writes in binary mode, and the far end reads in it. -/
def modes (c : Connection) : Bool × Bool :=
  (c.near.engine.writesBinary, c.far.engine.readsBinary)

/-- Binary mode goes on and off again, with a carriage return on either side of both changes. -/
theorem data_survives_switch_twice :
    let switchOn : List (End × Move) :=
      [(.near, .call (.encode [13, 0])), (.far, .call (.request .theirs .binary true)),
        (.near, .call (.encode [13])), (.near, .receive 3), (.near, .call (.encode [13, 255])),
        (.far, .receive 8)]
    let switchOff : List (End × Move) :=
      [(.near, .call (.request .ours .binary false)), (.near, .call (.encode [13])),
        (.far, .receive 20)]
    let begun := start { weCan := [.binary] } {}
    let switched := begun.run (promptly switchOn)
    let c := begun.run (promptly (switchOn ++ switchOff))
    (∀ m ∈ switchOn ++ switchOff, Switches m) ∧
      begun.modes = (false, false) ∧ switched.modes = (true, true) ∧ c.modes = (false, false) ∧
      switched.far.clean <+: [13, 0, 13, 13, 255] ∧ c.near.wire = [] ∧
      c.far.clean = [13, 0, 13, 13, 255, 13] := by
  intro switchOn switchOff begun switched c
  have hmoves : ∀ m ∈ switchOn ++ switchOff, Switches m := by
    intro m hm
    simp only [switchOn, switchOff, List.cons_append, List.nil_append, List.mem_cons,
      List.not_mem_nil, or_false] at hm
    rcases hm with rfl | rfl | rfl | rfl | rfl | rfl | rfl | rfl | rfl
    all_goals constructor
  have hmodes : begun.modes = (false, false) ∧ switched.modes = (true, true) ∧
      c.modes = (false, false) := by decide +kernel
  have hwire : c.near.wire = [] := by decide +kernel
  obtain ⟨hswitched, -⟩ := data_survives_switch { weCan := [.binary] } {}
    fun m hm => hmoves m (List.mem_append_left _ hm)
  obtain ⟨-, hall⟩ := data_survives_switch { weCan := [.binary] } {} hmoves
  exact ⟨hmoves, hmodes.1, hmodes.2.1, hmodes.2.2, hswitched, hwire, hall hwire⟩

end Connection

end RemoteConsole.Telnet
