/-
Urgent notifications.  While Data Marks are awaited data is dropped, and nothing else is:
engines that await different numbers of them read a stream alike.
-/
import RemoteConsole.Proofs.Telnet.Data

namespace RemoteConsole.Telnet

namespace Output

/-- The Data Marks among the commands that are reported. -/
def marks (out : Output) : Nat :=
  out.commands.count .dataMark

/-- All but the data. -/
def muted (out : Output) : Output :=
  { out with clean := [] }

@[simp] theorem marks_append (a b : Output) : (a ++ b).marks = a.marks + b.marks := by
  simp [marks]

theorem marks_of_no_commands {out : Output} (h : out.commands = []) : out.marks = 0 := by
  simp [marks, h]

theorem muted_of_no_data {out : Output} (h : out.clean = []) : out.muted = out := by
  rw [muted, ← h]

theorem muted_append (a b : Output) : (a ++ b).muted = a.muted ++ b.muted := rfl

end Output

namespace Engine

/-- An engine with so many Data Marks to wait for. -/
def awaiting (e : Engine) (marks : Nat) : Engine :=
  { e with synchronizing := marks }

/-- What comes of a step when marks are awaited, if this comes of it when none are. -/
def damped (marks : Nat) (next : Engine × Output) : Engine × Output :=
  (next.1.awaiting (marks - next.2.marks), if marks = 0 then next.2 else next.2.muted)

/-! What heeds no Data Mark. -/

theorem hear_awaiting (e : Engine) (k : Nat) (side : Side) (o : OptionCode) (enable : Bool) :
    (e.awaiting k).hear side o enable =
      ((e.hear side o enable).1.awaiting k, (e.hear side o enable).2) := by
  have hheard : (e.awaiting k).heard side o enable = e.heard side o enable := rfl
  by_cases h : (e.heard side o enable).1.isOn o side = e.options.isOn o side
  · have hk : (e.heard side o enable).1.isOn o side = (e.awaiting k).options.isOn o side := h
    simp only [hear_eq, hheard]
    rw [if_pos h, if_pos hk]
    rfl
  · have hk : ¬(e.heard side o enable).1.isOn o side = (e.awaiting k).options.isOn o side := h
    simp only [hear_eq, hheard]
    rw [if_neg h, if_neg hk]
    rfl

theorem onNegotiation_awaiting (e : Engine) (k : Nat) (side : Side) (o : OptionCode)
    (enable : Bool) :
    (e.awaiting k).onNegotiation side o enable =
      ((e.onNegotiation side o enable).1.awaiting k, (e.onNegotiation side o enable).2) := by
  unfold onNegotiation hearTimingMark
  split
  · cases side <;> cases enable <;> first | rfl | exact e.hear_awaiting k ..
  · exact e.hear_awaiting k side o enable

theorem keep_awaiting (e : Engine) (k : Nat) (b : UInt8) :
    (e.awaiting k).keep b = (e.keep b).awaiting k := by
  by_cases h : e.received.length > e.settings.subnegotiationLimit <;> simp [keep, awaiting, h]

theorem interpret_awaiting (e : Engine) (k : Nat) (o : OptionCode) (payload : List UInt8) :
    (e.awaiting k).interpret o payload =
      ((e.interpret o payload).1.awaiting k, (e.interpret o payload).2) := by
  unfold interpret
  split
  · split
    · rfl
    · split <;> rfl
    · rfl
  · split
    · split <;> rfl
    · rfl

theorem endSubnegotiation_awaiting (e : Engine) (k : Nat) :
    (e.awaiting k).endSubnegotiation =
      (e.endSubnegotiation.1.awaiting k, e.endSubnegotiation.2) := by
  have hreceived : (e.awaiting k).received = e.received := rfl
  unfold endSubnegotiation
  rw [hreceived]
  cases e.received.toList with
  | nil => rfl
  | cons code payload => exact { e with received := Log.empty }.interpret_awaiting k ⟨code⟩ payload

theorem endSubnegotiation_silent (e : Engine) :
    e.endSubnegotiation.2.clean = [] ∧ e.endSubnegotiation.2.commands = [] := by
  unfold endSubnegotiation
  cases e.received.toList with
  | nil => exact ⟨rfl, rfl⟩
  | cons code payload => exact { e with received := Log.empty }.interpret_silent ⟨code⟩ payload

/-! One byte. -/

/-- What gives off neither data nor marks goes on as ever. -/
theorem damped_of_silent {k : Nat} {e e' : Engine} {out : Output} (he : e' = e.awaiting k)
    (hclean : out.clean = []) (hmarks : out.marks = 0) : (e', out) = damped k (e, out) := by
  rw [damped, hmarks, Output.muted_of_no_data hclean, Nat.sub_zero, ite_self, he]

theorem damped_of_nothing {k : Nat} {e e' : Engine} (he : e' = e.awaiting k) :
    (e', {}) = damped k (e, {}) :=
  damped_of_silent he rfl rfl

theorem damped_deliver {k : Nat} {e e' : Engine} (he : e' = e.awaiting k) (reader : Engine)
    (b : UInt8) :
    (e', (reader.awaiting k).deliver b) = damped k (e, (reader.awaiting 0).deliver b) := by
  subst he
  cases k <;> rfl

/-- What comes after such a thing is damped alone. -/
theorem damped_append {out : Output} (hclean : out.clean = []) (hmarks : out.marks = 0) (k : Nat)
    (next : Engine × Output) :
    ((damped k next).1, out ++ (damped k next).2) = damped k (next.1, out ++ next.2) := by
  have hmuted : (out ++ next.2).muted = out ++ next.2.muted := by
    rw [Output.muted_append, Output.muted_of_no_data hclean]
  simp only [damped, Output.marks_append, hmarks, Nat.zero_add, hmuted]
  split <;> rfl

theorem readData_awaiting (e : Engine) (k : Nat) (b : UInt8) :
    (e.awaiting k).readData b = damped k ((e.awaiting 0).readData b) := by
  have hmode : (e.awaiting k).readsBinary = (e.awaiting 0).readsBinary := rfl
  unfold readData
  rw [hmode]
  split
  · exact damped_of_nothing rfl
  · split
    all_goals
      refine damped_deliver ?_ e b
      rfl

theorem onCommand_awaiting (e : Engine) (k : Nat) (c : Command) :
    (e.awaiting k).onCommand c = damped k ((e.awaiting 0).onCommand c) := by
  by_cases hmark : c = .dataMark
  · subst hmark
    cases k <;> rfl
  · unfold onCommand
    split
    · exact damped_of_nothing rfl
    · have hnone : [c].count .dataMark = 0 := List.count_eq_zero.mpr (by simpa using Ne.symm hmark)
      exact damped_of_silent rfl rfl hnone

theorem readCommand_awaiting (e : Engine) (k : Nat) (b : UInt8) :
    (e.awaiting k).readCommand b = damped k ((e.awaiting 0).readCommand b) := by
  unfold readCommand
  split
  · refine damped_deliver ?_ { e with decoder := .idle } iac
    rfl
  · repeat' split
    all_goals first
      | exact damped_of_nothing rfl
      | exact { e with decoder := .idle }.onCommand_awaiting k ⟨b⟩

/-- While marks are awaited an engine does with a byte what it would do with none awaited,
but for the data, which is dropped, and for a mark, which counts. -/
theorem step_awaiting (e : Engine) (k : Nat) (b : UInt8) :
    (e.awaiting k).step b = damped k ((e.awaiting 0).step b) := by
  have hdecoder : (e.awaiting k).decoder = (e.awaiting 0).decoder := rfl
  let idle : Engine := { e.awaiting 0 with decoder := .idle }
  unfold step
  rw [hdecoder]
  split
  next => exact e.readData_awaiting k b
  next =>
    split
    · exact damped_of_nothing rfl
    · exact idle.readData_awaiting k b
  next => exact e.readCommand_awaiting k b
  next side enable _ =>
    obtain ⟨hclean, hcommands⟩ := idle.onNegotiation_silent side ⟨b⟩ enable
    have hmarks := Output.marks_of_no_commands hcommands
    exact (idle.onNegotiation_awaiting k side ⟨b⟩ enable).trans
      (damped_of_silent rfl hclean hmarks)
  next =>
    split
    · exact damped_of_nothing rfl
    · exact damped_of_nothing ((e.awaiting 0).keep_awaiting k b)
  next =>
    split
    · exact damped_of_nothing ({ e.awaiting 0 with decoder := .subnegotiating }.keep_awaiting k iac)
    · split
      · obtain ⟨hclean, hcommands⟩ := idle.endSubnegotiation_silent
        have hmarks := Output.marks_of_no_commands hcommands
        exact (idle.endSubnegotiation_awaiting k).trans (damped_of_silent rfl hclean hmarks)
      · obtain ⟨hclean, hcommands⟩ := e.endSubnegotiation_silent
        have hmarks := Output.marks_of_no_commands hcommands
        let after : Engine := { e.endSubnegotiation.1 with decoder := .command }
        have hread := after.readCommand_awaiting k b
        rw [e.endSubnegotiation_awaiting, e.endSubnegotiation_awaiting]
        change (((after.awaiting k).readCommand b).1, _ ++ ((after.awaiting k).readCommand b).2) = _
        rw [hread]
        exact damped_append hclean hmarks k _

/-! Marks are tokens, and come one at a time. -/

theorem commands_perform (e : Engine) (t : Token) :
    (e.perform t).2.commands = [t].filterMap Token.report? := by
  cases t with
  | data b =>
      change (e.accept b).2.commands = []
      unfold accept
      repeat' split
      all_goals rfl
  | _ => exact (e.perform_of_not_data rfl).2.1

theorem commands_performAll (e : Engine) (ts : List Token) :
    (e.performAll ts).2.commands = ts.filterMap Token.report? := by
  induction ts generalizing e with
  | nil => rfl
  | cons t ts ih =>
      have hcommands : (e.performAll (t :: ts)).2.commands =
          (e.perform t).2.commands ++ ((e.perform t).1.performAll ts).2.commands :=
        Output.commands_append _ _
      rw [hcommands, commands_perform, ih, ← List.filterMap_append, List.singleton_append]

theorem commands_step (e : Engine) (b : UInt8) :
    (e.step b).2.commands = (e.reader.read b).2.filterMap Token.report? := by
  rw [step_eq, commands_performAll]

/-- The commands that are reported are those of the stream. -/
theorem commands_decode (e : Engine) (bytes : List UInt8) :
    (e.decode bytes).2.commands = (e.reader.tokens bytes).filterMap Token.report? := by
  induction bytes generalizing e with
  | nil => rfl
  | cons b bytes ih =>
      rw [decode, Output.commands_append, commands_step, ih, reader_step, Reader.tokens,
        List.filterMap_append]

theorem report?_eq_some_dataMark {t : Token} :
    t.report? = some .dataMark ↔ t = .command .dataMark := by
  cases t with
  | command c =>
      rw [Token.command.injEq, Token.report?]
      split
      next hsilent =>
        have hne : c ≠ .dataMark := by
          rintro rfl
          exact absurd hsilent (by decide)
        simpa using hne
      next => exact Option.some_inj
  | _ => simp [Token.report?]

theorem count_report (ts : List Token) :
    (ts.filterMap Token.report?).count .dataMark = ts.count (.command .dataMark) := by
  rw [List.count_filterMap, List.count]
  refine List.countP_congr fun t _ => ?_
  rw [beq_iff_eq, beq_iff_eq, report?_eq_some_dataMark]

theorem marks_decode (e : Engine) (bytes : List UInt8) :
    (e.decode bytes).2.marks = (e.reader.tokens bytes).count (.command .dataMark) := by
  rw [Output.marks, commands_decode, count_report]

theorem length_readCommand (r : Reader) (b : UInt8) : (r.readCommand b).2.length ≤ 1 := by
  unfold Reader.readCommand
  repeat' split
  all_goals simp

theorem length_report_read (r : Reader) (b : UInt8) :
    ((r.read b).2.filterMap Token.report?).length ≤ 1 := by
  have hcommand (r : Reader) : ((r.readCommand b).2.filterMap Token.report?).length ≤ 1 :=
    Nat.le_trans (List.length_filterMap_le _ _) (length_readCommand r b)
  unfold Reader.read
  repeat' split
  all_goals first
    | exact hcommand _
    | exact Nat.zero_le 1

theorem marks_step (e : Engine) (b : UInt8) : (e.step b).2.marks ≤ 1 := by
  rw [Output.marks, commands_step]
  exact Nat.le_trans List.count_le_length (length_report_read e.reader b)

/-! Whole streams. -/

@[simp] theorem sent_damped (k : Nat) (next : Engine × Output) :
    (damped k next).2.sent = next.2.sent := by
  cases k <;> rfl

@[simp] theorem events_damped (k : Nat) (next : Engine × Output) :
    (damped k next).2.events = next.2.events := by
  cases k <;> rfl

theorem clean_damped {k : Nat} (hk : k ≠ 0) (next : Engine × Output) :
    (damped k next).2.clean = [] := by
  simp [damped, hk, Output.muted]

/-- An engine that awaits no mark never comes to await one. -/
theorem step_awaiting_none (e : Engine) (b : UInt8) :
    ((e.awaiting 0).step b).1.awaiting 0 = ((e.awaiting 0).step b).1 := by
  have hstep := congrArg Prod.fst (e.step_awaiting 0 b)
  rw [damped, Nat.zero_sub] at hstep
  exact hstep.symm

theorem decode_awaiting (e : Engine) (k : Nat) (bytes : List UInt8) :
    let plain := (e.awaiting 0).decode bytes
    let synch := (e.awaiting k).decode bytes
    synch.1 = plain.1.awaiting (k - plain.2.marks) ∧
      synch.2.sent = plain.2.sent ∧ synch.2.events = plain.2.events := by
  induction bytes generalizing e k with
  | nil => exact ⟨rfl, rfl, rfl⟩
  | cons b bytes ih =>
      let next := (e.awaiting 0).step b
      have hnone : next.1.awaiting 0 = next.1 := e.step_awaiting_none b
      have hstep : (e.awaiting k).step b = damped k next := e.step_awaiting k b
      have hrest := ih next.1 (k - next.2.marks)
      rw [hnone] at hrest
      obtain ⟨hengine, hsent, hevents⟩ := hrest
      simp only [decode, hstep, Output.sent_append, Output.events_append, Output.marks_append,
        sent_damped, events_damped]
      refine ⟨?_, ?_, ?_⟩
      · rw [← Nat.sub_sub]
        exact hengine
      · exact congrArg (next.2.sent ++ ·) hsent
      · exact congrArg (next.2.events ++ ·) hevents

/-- Bytes that end with so many Data Marks in them, and no sooner. -/
structure EndsInMark (e : Engine) (count : Nat) (bytes : List UInt8) : Prop where
  marks : (e.decode bytes).2.marks = count
  shortest : ∀ x, x <+: bytes → x ≠ bytes → (e.decode x).2.marks < count

/-- Before the first byte no mark has come. -/
theorem endsInMark_zero (e : Engine) : EndsInMark e 0 [] where
  marks := rfl
  shortest _ hx hne := absurd (List.prefix_nil.mp hx) hne

theorem EndsInMark.cons {e : Engine} {b : UInt8} {count : Nat} {bytes : List UInt8}
    (h : EndsInMark (e.step b).1 (count - (e.step b).2.marks) bytes) (hcount : count ≠ 0) :
    EndsInMark e count (b :: bytes) where
  marks := by
    have hone := e.marks_step b
    rw [decode, Output.marks_append, h.marks]
    omega
  shortest x hx hne := by
    cases x with
    | nil => exact Nat.pos_of_ne_zero hcount
    | cons c x =>
        obtain ⟨rfl, htail⟩ := List.cons_prefix_cons.mp hx
        have hshort := h.shortest x htail fun heq => hne (by rw [heq])
        rw [decode, Output.marks_append]
        omega

/-- Of the data only that after the last mark awaited is left. -/
theorem clean_decode_awaiting (e : Engine) (k : Nat) (bytes : List UInt8) :
    ((e.awaiting 0).decode bytes).2.marks < k ∧ ((e.awaiting k).decode bytes).2.clean = [] ∨
      ∃ before after, bytes = before ++ after ∧ EndsInMark (e.awaiting 0) k before ∧
        ((e.awaiting k).decode bytes).2.clean =
          (((e.awaiting 0).decode before).1.decode after).2.clean := by
  induction bytes generalizing e k with
  | nil =>
      cases k with
      | zero => exact .inr ⟨[], [], rfl, endsInMark_zero _, rfl⟩
      | succ k => exact .inl ⟨Nat.succ_pos k, rfl⟩
  | cons b bytes ih =>
      by_cases hk : k = 0
      · subst hk
        exact .inr ⟨[], b :: bytes, rfl, endsInMark_zero _, rfl⟩
      · let next := (e.awaiting 0).step b
        have hnone : next.1.awaiting 0 = next.1 := e.step_awaiting_none b
        have hstep : (e.awaiting k).step b = damped k next := e.step_awaiting k b
        have hclean : ((e.awaiting k).decode (b :: bytes)).2.clean =
            ((next.1.awaiting (k - next.2.marks)).decode bytes).2.clean := by
          simp only [decode, hstep, Output.clean_append, clean_damped hk]
          rfl
        have hrest := ih next.1 (k - next.2.marks)
        rw [hnone] at hrest
        rw [hclean]
        rcases hrest with ⟨hfew, hnothing⟩ | ⟨before, after, hbytes, hmark, hafter⟩
        · left
          refine ⟨?_, hnothing⟩
          simp only [decode, Output.marks_append]
          change next.2.marks + (next.1.decode bytes).2.marks < k
          omega
        · right
          refine ⟨b :: before, after, ?_, hmark.cons hk, hafter⟩
          rw [hbytes]
          rfl

/-- An engine that awaits Data Marks goes through a stream as one that awaits none: it
counts the marks, which are those among the tokens of the stream, and of the data it yields
what comes after the last it has waited for. -/
theorem data_dropped_until_marks (e : Engine) (k : Nat) (bytes : List UInt8) :
    let plain := (e.awaiting 0).decode bytes
    let synch := (e.awaiting k).decode bytes
    (∀ x, ((e.awaiting 0).decode x).2.marks = (e.reader.tokens x).count (.command .dataMark)) ∧
      synch.1 = plain.1.awaiting (k - plain.2.marks) ∧
      synch.2.sent = plain.2.sent ∧ synch.2.events = plain.2.events ∧
        (plain.2.marks < k ∧ synch.2.clean = [] ∨
          ∃ before after, bytes = before ++ after ∧ EndsInMark (e.awaiting 0) k before ∧
            synch.2.clean = (((e.awaiting 0).decode before).1.decode after).2.clean) := by
  obtain ⟨hengine, hsent, hevents⟩ := e.decode_awaiting k bytes
  exact ⟨(e.awaiting 0).marks_decode, hengine, hsent, hevents, e.clean_decode_awaiting k bytes⟩

/-- The first 242 is payload, the second a Data Mark that cuts the subnegotiation short.  A
further mark is still awaited. -/
theorem data_dropped_until_marks_cut :
    let e : Engine := {}
    let bytes : List UInt8 := [65, 255, 250, 40, 242, 255, 242, 66]
    let synch := (e.awaiting 2).decode bytes
    e.reader.tokens bytes = [.data 65, .frame [40, 242], .command .dataMark, .data 66] ∧
      synch.1.synchronizing = 1 ∧ synch.2.clean = [] ∧
      synch.2.events = [.subnegotiation ⟨40⟩ [242], .command .dataMark] ∧
      (synch.1.decode [67, 255, 242, 68]).2.clean = [68] := by
  intro e bytes synch
  have htokens : e.reader.tokens bytes =
      [.data 65, .frame [40, 242], .command .dataMark, .data 66] := by decide +kernel
  obtain ⟨hmarks, hengine, -, hevents, hclean⟩ := e.data_dropped_until_marks 2 bytes
  have hone : ((e.awaiting 0).decode bytes).2.marks = 1 := by
    rw [hmarks, htokens]
    rfl
  rw [hone] at hengine hclean
  have hsynchronizing : synch.1.synchronizing = 1 := congrArg synchronizing hengine
  refine ⟨htokens, hsynchronizing, ?_, hevents, by decide +kernel⟩
  rcases hclean with ⟨-, hnothing⟩ | ⟨before, after, hbytes, hmark, -⟩
  · exact hnothing
  · rw [hbytes, decode_append, Output.marks_append, hmark.marks] at hone
    omega

end Engine

end RemoteConsole.Telnet
