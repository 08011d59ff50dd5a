/-
Messages through a pipe.  Whatever calls are made on its ends but to close them, what the one
end reads is what was written to the other: message after message, from the first byte on.
-/
import RemoteConsole.Proofs.Network.Flow

namespace RemoteConsole.Network

namespace Crowd

/-- The writes under way on a channel, in line. -/
def writersAt (s : Crowd Phase) (c : ChannelId) : List Waiter :=
  s.underway.filter (inLine c true)

/-- What goes from one end to the other. -/
def flow (s : Crowd Phase) (a b : ChannelId) : Flow where
  line := s.writersAt a
  turns := s.turnsAt a
  finished := s.finishedAt a
  received := s.bytesRead b
  buffer := (s.network.outgoing a).buffer.toList

/-- The first in line, if it was not the first in another line. -/
def newTurn (old new : List Waiter) : List Visit :=
  ((new.take 1).map Prod.fst).filter fun v => ((old.take 1).map (·.1.ticket)) ≠ [v.ticket]

variable {s t : Crowd Phase} {a b c : ChannelId} {v : Visit} {p : Phase} {w : Waiter}

theorem newTurn_of_visits {old new : List Waiter} (h : new.map Prod.fst = old.map Prod.fst) :
    newTurn old new = [] := by
  have htake : (old.take 1).map (·.1.ticket) = ((new.take 1).map Prod.fst).map (·.ticket) := by
    rw [List.map_take, List.map_take, List.map_take, h, List.map_map]
    rfl
  rw [newTurn, htake]
  cases new with
  | nil => rfl
  | cons w new => simp

theorem newTurn_append {old : List Waiter} (hw : w.1.ticket ∉ old.map (·.1.ticket)) :
    newTurn old (old ++ [w]) = if old = [] then [w.1] else [] := by
  cases old with
  | nil => simp [newTurn]
  | cons first old => simp [newTurn]

theorem newTurn_tail {rest : List Waiter} (hw : w.1.ticket ∉ rest.map (·.1.ticket)) :
    newTurn (w :: rest) rest = (rest.take 1).map Prod.fst := by
  cases rest with
  | nil => simp [newTurn]
  | cons next rest =>
      simp only [newTurn]
      simp at hw
      simp [hw]

/-- Who is noted to have come to its turn. -/
theorem turnsAt_noteTurns (hs : s.network.Seated a b s.underway)
    (ht : t.network.Seated a b t.underway) (hc : c = a ∨ c = b) :
    (t.noteTurns s.network).turnsAt c =
      t.turnsAt c ++ newTurn (s.writersAt c) (t.writersAt c) := by
  have hold (v : Visit) (hv : v.channel = c) :
      v.hasTurn s.network = true ↔ ((s.writersAt c).take 1).map (·.1.ticket) = [v.ticket] := by
    rw [hs.hasTurn_iff (hv ▸ hc), hv, lineOf, writersAt]
    cases s.underway.filter (inLine c true) with
    | nil => simp
    | cons w rest => simp
  rw [turnsAt, noteTurns, List.filter_append, List.filter_filter, newTurn]
  congr 1
  rw [show t.writersAt c = t.underway.filter (inLine c true) from rfl, ← ht.filter_hasTurn hc,
    List.filter_filter]
  apply List.filter_congr
  intro v _
  by_cases hv : v.channel = c
  · have hnot : (decide (((s.writersAt c).take 1).map (·.1.ticket) ≠ [v.ticket])) =
        !v.hasTurn s.network := by
      rw [Bool.eq_iff_iff, decide_eq_true_eq, ne_eq, ← hold v hv, Bool.not_eq_true,
        Bool.not_eq_true']
    rw [hnot, Bool.and_comm (!_), Bool.and_assoc]
  · simp [hv]

/-- What one way through a pipe keeps up while there are no closes. -/
structure Flows (s : Crowd Phase) (a b : ChannelId) : Prop where
  seated : s.network.Seated a b s.underway
  calm : Calm s.network a b
  sound : (s.flow a b).Sound
  succeeded : ∀ r ∈ s.returned,
    r.1.channel = a → r.1.call.message?.isSome = true → r.2 = .ok []

section

variable {before after : List Waiter} {n' : Network} {course : Course Phase}

/-- How one way through a pipe looks once it is noted who came to its turn. -/
theorem flow_noteTurns (hs : s.network.Seated a b s.underway)
    (ht : t.network.Seated a b t.underway) (hturns : t.turns = s.turns) :
    (t.noteTurns s.network).flow a b =
      { t.flow a b with
        turns := s.turnsAt a ++ newTurn (s.writersAt a) (t.writersAt a) } := by
  have hnoted := turnsAt_noteTurns hs ht (.inl rfl)
  rw [show t.turnsAt a = s.turnsAt a by rw [turnsAt, hturns, turnsAt]] at hnoted
  rw [flow, hnoted]
  rfl

/-- As long as the line stays as it is, no one comes to its turn. -/
theorem flow_of_line (hs : s.network.Seated a b s.underway)
    (ht : t.network.Seated a b t.underway) (hturns : t.turns = s.turns)
    (hline : t.writersAt a = s.writersAt a) (hfinished : t.finishedAt a = s.finishedAt a) :
    (t.noteTurns s.network).flow a b =
      { s.flow a b with
        received := t.bytesRead b
        buffer := (t.network.outgoing a).buffer.toList } := by
  rw [flow_noteTurns hs ht hturns, newTurn_of_visits (by rw [hline]), List.append_nil, flow,
    hline, hfinished, flow]

theorem writersAt_split (hsplit : s.underway = before ++ (v, p) :: after)
    (hin : inLine c true (v, p) = true) :
    s.writersAt c = before.filter (inLine c true) ++ (v, p) :: after.filter (inLine c true) := by
  rw [writersAt, hsplit, List.filter_append, List.filter_cons_of_pos hin]

/-- The write that has the turn is the first in line. -/
theorem first_of_hasTurn (hs : s.network.Seated a b s.underway)
    (hsplit : s.underway = before ++ (v, p) :: after) (hv : v.channel = a)
    (hp : p.writes = true) (hturn : v.hasTurn s.network = true) :
    before.filter (inLine a true) = [] := by
  have hline := writersAt_split hsplit (inLine_iff.mpr ⟨hv.symm, hp.symm⟩)
  have hfirst := (hs.hasTurn_iff (.inl hv)).mp hturn
  rw [hv, lineOf, show s.underway.filter (inLine a true) = s.writersAt a from rfl, hline] at hfirst
  cases hbefore : before.filter (inLine a true) with
  | nil => rfl
  | cons w rest =>
      have hother := ((hsplit ▸ hs).others a true).1
      have hticket : w.1.ticket = v.ticket := by simpa [hbefore] using hfirst
      exact absurd (by simp [lineOf, hbefore, hticket]) hother

/-- The write that has begun is the first in line. -/
theorem first_of_writing {goes : Nat} {left : List UInt8} (hf : (s.flow a b).Sound)
    (hsplit : s.underway = before ++ (v, .writing goes left) :: after) (hv : v.channel = a) :
    before.filter (inLine a true) = [] := by
  have hline := writersAt_split hsplit (inLine_iff.mpr ⟨hv.symm, rfl⟩)
  cases hbefore : before.filter (inLine a true) with
  | nil => rfl
  | cons w rest =>
      have hwaiting := hf.waiting (v, .writing goes left) (by simp [flow, hline, hbefore])
      cases hwaiting

/-- The first in line goes on to wait. -/
theorem flow_waits {p' : Phase} (hs : s.network.Seated a b s.underway)
    (ht : n'.Seated a b (before ++ (v, p') :: after))
    (hsplit : s.underway = before ++ (v, p) :: after) (hv : v.channel = a)
    (hp : p.writes = true) (hp' : p'.writes = true)
    (hfirst : before.filter (inLine a true) = []) :
    s.writersAt a = (v, p) :: after.filter (inLine a true) ∧
      ((s.proceed before.length v (n', .waits p')).noteTurns s.network).flow a b =
        { s.flow a b with
          line := (v, p') :: after.filter (inLine a true)
          buffer := (n'.outgoing a).buffer.toList } := by
  have hold : s.writersAt a = (v, p) :: after.filter (inLine a true) := by
    rw [writersAt_split hsplit (inLine_iff.mpr ⟨hv.symm, hp.symm⟩), hfirst, List.nil_append]
  refine ⟨hold, ?_⟩
  rw [proceed_waits hsplit]
  obtain ⟨t, ht'⟩ : ∃ t : Crowd Phase,
      t = { s with network := n', underway := before ++ (v, p') :: after } := ⟨_, rfl⟩
  have hnew : t.writersAt a = (v, p') :: after.filter (inLine a true) := by
    rw [writersAt_split (by rw [ht']) (inLine_iff.mpr ⟨hv.symm, hp'.symm⟩), hfirst,
      List.nil_append]
  rw [← ht', flow_noteTurns hs (by rw [ht']; exact ht) (by rw [ht']),
    newTurn_of_visits (by rw [hnew, hold]; rfl), List.append_nil, flow, hnew, flow, ht']
  rfl

/-- The first in line is done, and the next comes to its turn. -/
theorem flow_returned (hs : s.network.Seated a b s.underway)
    (ht : n'.Seated a b (before ++ after))
    (hsplit : s.underway = before ++ (v, p) :: after) (hv : v.channel = a)
    (hp : p.writes = true) (hfirst : before.filter (inLine a true) = []) :
    s.writersAt a = (v, p) :: after.filter (inLine a true) ∧
      ((s.proceed before.length v (n', .returned (.ok []))).noteTurns s.network).flow a b =
        { s.flow a b with
          line := after.filter (inLine a true)
          turns := s.turnsAt a ++ ((after.filter (inLine a true)).take 1).map Prod.fst
          finished := s.finishedAt a ++ [v]
          buffer := (n'.outgoing a).buffer.toList } := by
  have hold : s.writersAt a = (v, p) :: after.filter (inLine a true) := by
    rw [writersAt_split hsplit (inLine_iff.mpr ⟨hv.symm, hp.symm⟩), hfirst, List.nil_append]
  refine ⟨hold, ?_⟩
  have hwrites : v.call.message?.isSome = true := by
    rw [← (hs.proper (v, p) (by simp [hsplit])).fits.writes, hp]
  rw [proceed_returned hsplit]
  obtain ⟨t, ht'⟩ : ∃ t : Crowd Phase, t = { s with
      network := n'
      underway := before ++ after
      returned := s.returned ++ [(v, .ok [])] } := ⟨_, rfl⟩
  have hnew : t.writersAt a = after.filter (inLine a true) := by
    rw [writersAt, ht', List.filter_append, hfirst, List.nil_append]
  have hfinished : t.finishedAt a = s.finishedAt a ++ [v] := by
    simp [finishedAt, ht', hv, hwrites]
  have hread : t.bytesRead b = s.bytesRead b := by
    simp [bytesRead, ht', bytesOf]
  rw [← ht', flow_noteTurns hs (by rw [ht']; exact ht) (by rw [ht']), hnew, hold, newTurn_tail]
  · rw [flow, hnew, hfinished, hread, ht']
    rfl
  · intro hmem
    exact ((hsplit ▸ hs).others a true).2 (by simpa [lineOf] using hmem)

/-- A write to the near end goes on. -/
theorem flow_write (hs : s.Flows a b) (hsplit : s.underway = before ++ (v, p) :: after)
    (hgoes : v.Goes s.time s.network p n' course) (hv : v.channel = a) (hp : p.writes = true)
    (ht : (s.proceed before.length v (course.depart v p n', course)).network.Seated a b
      (s.proceed before.length v (course.depart v p n', course)).underway) :
    (s.flow a b).Step
      (((s.proceed before.length v (course.depart v p n', course)).noteTurns
        s.network).flow a b) := by
  have hput (left : List UInt8) :
      (((s.network.setPipe (s.network.pipeEnd v.channel).outgoing
        ((s.network.outgoing v.channel).put left).2)).outgoing a).buffer.toList =
        (s.network.outgoing a).buffer.toList ++ left.take (s.network.outgoing a).space := by
    rw [hv, hs.seated.joined.outgoing_setPipe, Pipe.put, Buffer.toList_append]
  cases hgoes with
  | stays =>
      have hflow := flow_of_line hs.seated ht
      rw [proceed_waits hsplit] at ht hflow ⊢
      rw [hflow rfl (by rw [writersAt, writersAt, hsplit]) rfl]
      exact .still
  | turn hbytes hturn =>
      have hfirst := first_of_hasTurn hs.seated hsplit hv hp hturn
      rw [proceed_waits hsplit] at ht
      obtain ⟨hline, hflow⟩ := flow_waits hs.seated ht hsplit hv hp rfl hfirst
      rw [hflow]
      exact .begins hline
  | idles hturn =>
      have hfirst := first_of_hasTurn hs.seated hsplit hv hp hturn
      rw [proceed_returned hsplit] at ht
      obtain ⟨hline, hflow⟩ := flow_returned hs.seated ht hsplit hv hp hfirst
      have hdone := Flow.Step.finishes (f := s.flow a b) hline
      simp only [Phase.unsent, List.append_nil] at hdone
      rw [hflow, Course.depart, LockPlace.leave, outgoing_lockOf_update]
      exact hdone
  | cut hclosed =>
      rw [hs.calm.isOpen_of (.inl hv)] at hclosed
      cases hclosed
  | breaks hbroken =>
      rw [hs.calm.unshut_of (.inl hv)] at hbroken
      cases hbroken
  | @fills goes left hleft hgoes =>
      have hfirst := first_of_writing hs.sound hsplit hv
      rw [proceed_waits hsplit] at ht
      obtain ⟨hline, hflow⟩ := flow_waits hs.seated ht hsplit hv hp rfl hfirst
      rw [hflow, Course.depart, hput, hv]
      rw [← List.take_append_drop (s.network.outgoing a).space left] at hline
      exact .fills hline
  | @finishes goes left hleft =>
      have hfirst := first_of_writing hs.sound hsplit hv
      rw [proceed_returned hsplit] at ht
      obtain ⟨hline, hflow⟩ := flow_returned hs.seated ht hsplit hv hp hfirst
      have hall : left.take (s.network.outgoing a).space = left := by
        rw [hv] at hleft
        rw [← List.append_nil (left.take _), ← show left.drop _ = [] from hleft,
          List.take_append_drop]
      rw [hflow, Course.depart, LockPlace.leave, outgoing_lockOf_update, hput, hall]
      exact Flow.Step.finishes (f := s.flow a b) hline
  | readTurn => cases hp
  | readCut hp' =>
      rw [hp] at hp'
      cases hp'
  | takes => cases hp
  | drained => cases hp
  | late => cases hp

theorem bytesRead_append (answer : Answer) :
    { s with returned := s.returned ++ [(v, answer)] }.bytesRead b =
      s.bytesRead b ++ if v.channel = b then bytesOf answer else [] := by
  simp [bytesRead]

/-- A call that is no write to the near end goes on. -/
theorem flow_beside (hs : s.Flows a b) (hsplit : s.underway = before ++ (v, p) :: after)
    (hv : ¬(v.channel = a ∧ p.writes = true))
    (hcourse : ∀ p', course = .waits p' → p'.writes = p.writes)
    (ht : (s.proceed before.length v (n', course)).network.Seated a b
      (s.proceed before.length v (n', course)).underway) :
    ((s.proceed before.length v (n', course)).noteTurns s.network).flow a b =
      { s.flow a b with
        received := (s.proceed before.length v (n', course)).bytesRead b
        buffer := (n'.outgoing a).buffer.toList } := by
  have hnot (q : Phase) (hq : q.writes = p.writes) : ¬inLine a true (v, q) = true := by
    rw [inLine_iff, hq]
    exact fun h => hv ⟨h.1.symm, h.2.symm⟩
  have hold : s.writersAt a =
      before.filter (inLine a true) ++ after.filter (inLine a true) := by
    rw [writersAt, hsplit, List.filter_append, List.filter_cons_of_neg (hnot p rfl)]
  have hflow := flow_of_line hs.seated ht
  cases course with
  | returned answer =>
      have hwrites := (hs.seated.proper (v, p) (by simp [hsplit])).fits.writes
      rw [proceed_returned hsplit] at hflow ⊢
      apply hflow rfl
      · rw [hold, writersAt, List.filter_append]
      · have hunwritten : (decide (v.channel = a) && v.call.message?.isSome) = false := by
          rw [← hwrites, Bool.and_eq_false_iff, decide_eq_false_iff_not, Bool.eq_false_iff]
          exact Classical.not_and_iff_not_or_not.mp hv
        simp [finishedAt, hunwritten]
  | waits p' =>
      rw [proceed_waits hsplit] at hflow ⊢
      apply hflow rfl
      · rw [hold, writersAt, List.filter_append,
          List.filter_cons_of_neg (hnot p' (hcourse p' rfl))]
      · rfl

/-- A call other than a write to the near end does no more than take bytes out. -/
theorem flow_take (hs : s.Flows a b) (hsplit : s.underway = before ++ (v, p) :: after)
    (hgoes : v.Goes s.time s.network p n' course) (hv : ¬(v.channel = a ∧ p.writes = true))
    (ht : (s.proceed before.length v (course.depart v p n', course)).network.Seated a b
      (s.proceed before.length v (course.depart v p n', course)).underway) :
    (s.flow a b).Step
      (((s.proceed before.length v (course.depart v p n', course)).noteTurns
        s.network).flow a b) := by
  have hproper := hs.seated.proper (v, p) (by simp [hsplit])
  obtain ⟨bytes, hbuffer, hwaits, hreturns⟩ :=
    hgoes.exists_taken hs.calm hs.seated.joined hproper hv
  have hflow := flow_beside hs hsplit hv (fun p' hp' => by
    subst hp'
    exact (hgoes.proper hproper).2) ht
  have hread : (s.proceed before.length v (course.depart v p n', course)).bytesRead b =
      s.bytesRead b ++ bytes := by
    cases course with
    | returned answer =>
        rw [proceed_returned hsplit, ← hreturns answer rfl]
        exact bytesRead_append answer
    | waits p' => rw [proceed_waits hsplit, hwaits p' rfl, List.append_nil]; rfl
  have hout : ((course.depart v p n').outgoing a).buffer = (n'.outgoing a).buffer := by
    cases course with
    | returned answer => rw [Course.depart, LockPlace.leave, outgoing_lockOf_update]
    | waits p' => rfl
  rw [hflow, hread, hout]
  exact Flow.Step.takes (f := s.flow a b) hbuffer

/-- A call that is made and comes to its end at once does nothing to the one way. -/
theorem flow_enter_returned (hs : s.Flows a b) (hcall : v.call.message? = none)
    (ht : n'.Seated a b s.underway) (hout : n'.outgoing a = s.network.outgoing a) :
    (s.flow a b).Step (((s.enter v (n', .returned (.ok []))).noteTurns s.network).flow a b) := by
  have hfinished : (s.enter v (n', .returned (.ok []))).finishedAt a = s.finishedAt a := by
    simp [finishedAt, enter, hcall]
  have hread : (s.enter v (n', .returned (.ok []))).bytesRead b = s.bytesRead b := by
    simp [bytesRead, enter, bytesOf]
  have hflow :=
    flow_of_line (t := s.enter v (n', .returned (.ok []))) hs.seated ht rfl rfl hfinished
  rw [hflow, hread, network_enter, hout]
  exact .still

/-- A call is made. -/
theorem flow_enter (hs : s.Flows a b) (hbegins : v.Begins s.network n' course)
    (hv : v.channel = a ∨ v.channel = b) (hcall : v.call ≠ .close)
    (hticket : v.ticket = s.network.tickets)
    (ht : (s.enter v (course.arrive v n', course)).network.Seated a b
      (s.enter v (course.arrive v n', course)).underway) :
    (s.flow a b).Step
      (((s.enter v (course.arrive v n', course)).noteTurns s.network).flow a b) := by
  cases hbegins with
  | refused _ hclosed =>
      rw [hs.calm.isOpen_of hv] at hclosed
      cases hclosed
  | @queues bytes hmessage =>
      obtain ⟨t, ht'⟩ : ∃ t, t = s.enter v
        ((Course.waits (.queuing bytes)).arrive v s.network, .waits (.queuing bytes)) := ⟨_, rfl⟩
      have hout : t.network.outgoing a = s.network.outgoing a := by
        rw [ht', network_enter, Course.arrive, outgoing_lockOf_update]
        rfl
      rw [← ht'] at ht ⊢
      by_cases hnear : v.channel = a
      · have hline : t.writersAt a = s.writersAt a ++ [(v, .queuing bytes)] := by
          rw [writersAt, ht', enter, List.filter_append]
          simp [inLine, hnear, Phase.writes, writersAt]
        have hnew : v.ticket ∉ (s.writersAt a).map (·.1.ticket) := by
          intro hmem
          have := hs.seated.given _ (lineOf_subset _ _ _ hmem)
          omega
        have hflow : t.flow a b =
            { s.flow a b with line := s.writersAt a ++ [(v, .queuing bytes)] } := by
          rw [flow, hline, hout, ht']
          rfl
        rw [flow_noteTurns hs.seated ht (by rw [ht']; rfl), hline, newTurn_append hnew, hflow]
        exact .queues hmessage
      · rw [flow_of_line hs.seated ht (by rw [ht']; rfl) _ (by rw [ht']; rfl), hout]
        · rw [ht']
          exact .still
        · rw [writersAt, ht', enter, List.filter_append]
          simp [inLine, hnear, writersAt]
  | lines =>
      rw [flow_of_line hs.seated ht rfl _ rfl, network_enter, Course.arrive,
        outgoing_lockOf_update]
      · exact .still
      · rw [writersAt, enter, List.filter_append]
        simp [inLine, Phase.writes, writersAt]
  | idles hmessage => exact flow_enter_returned hs hmessage ht rfl
  | sets hcall =>
      exact flow_enter_returned hs (by rw [hcall]; rfl) ht (outgoing_updateEnd fun _ => rfl)
  | shuts hclose => exact absurd hclose hcall
  | marks hclose => exact absurd hclose hcall

end

variable {s' : Crowd Phase} {allowed : ChannelId → Channel.Call → Prop}

theorem Flows.succeeded_append (hs : s.Flows a b) {answer : Answer}
    (hanswer : v.call.message?.isSome = true → answer = .ok []) :
    ∀ r ∈ s.returned ++ [(v, answer)],
      r.1.channel = a → r.1.call.message?.isSome = true → r.2 = .ok [] := by
  intro r hr hchannel hwrites
  rcases List.mem_append.mp hr with hr | hr
  · exact hs.succeeded r hr hchannel hwrites
  · rw [List.mem_singleton.mp hr] at hwrites ⊢
    exact hanswer hwrites

theorem Flows.step (hs : s.Flows a b) (h : Step allowed s s')
    (hallowed : ∀ c call, allowed c call → (c = a ∨ c = b) ∧ call ≠ .close) :
    s'.Flows a b := by
  have hseated := h.seated hs.seated fun c call hcall => (hallowed c call hcall).1
  cases h with
  | idle => exact hs
  | pass time => exact ⟨hs.seated, hs.calm, hs.sound, hs.succeeded⟩
  | @enters v n' course hcall hticket hbegins =>
      obtain ⟨hv, hclose⟩ := hallowed _ _ hcall
      refine ⟨hseated, ?_, hs.sound.step (flow_enter hs hbegins hv hclose hticket hseated), ?_⟩
      · rw [network_noteTurns, network_enter]
        exact (hbegins.calm hs.calm hclose).arrive
      · cases course with
        | waits p => exact hs.succeeded
        | returned answer =>
            exact hs.succeeded_append fun _ => hbegins.succeeds hs.calm hv
  | @proceeds before after v p n' course hsplit hgoes =>
      have hproper := hs.seated.proper (v, p) (by simp [hsplit])
      refine ⟨hseated, ?_, ?_, ?_⟩
      · rw [network_noteTurns, network_proceed]
        exact (hgoes.calm hs.calm hs.seated.joined hproper).depart
      · apply hs.sound.step
        by_cases hv : v.channel = a ∧ p.writes = true
        · exact flow_write hs hsplit hgoes hv.1 hv.2 hseated
        · exact flow_take hs hsplit hgoes hv hseated
      · cases course with
        | waits p' => exact hs.succeeded
        | returned answer =>
            exact hs.succeeded_append fun hwrites =>
              hgoes.succeeds hs.calm hproper.here (hproper.fits.writes.trans hwrites)

theorem flows_on {n : Network} (h : n.Fresh a b) : (on n).Flows a b where
  seated := seated_on h
  calm := ⟨h.isOpen, h.isOpenFar, h.unshut, h.unshutFar⟩
  sound := by
    refine ⟨List.forall_mem_nil _, rfl, ?_⟩
    simp [flow, on, writersAt, turnsAt, bytesRead, h.empty]
  succeeded := List.forall_mem_nil _

theorem Flows.run (hs : s.Flows a b) {acts : List Act}
    (hacts : ∀ act ∈ acts, act.Keeps fun c call => (c = a ∨ c = b) ∧ call ≠ .close) :
    ∃ s' : Crowd Phase, s'.Flows a b ∧ s.routines.run acts = s'.routines := by
  apply run_induction (I := (Flows · a b)) _ (fun _ _ h => h.1) _ hs hacts
  · exact fun s hs => hs.seated
  · exact fun s s' hs h => hs.step h fun _ _ h => h

/-- The writes that returned have written all of their messages. -/
theorem Flows.finished (hs : s.Flows a b) :
    (s.finishedAt a).flatMap Visit.message <+:
      s.bytesRead b ++ (s.network.outgoing a).buffer.toList := by
  have hturns : s.turnsAt a = s.finishedAt a ++ ((s.writersAt a).take 1).map Prod.fst :=
    hs.sound.turns
  have haccount : s.messages a = s.bytesRead b ++ (s.network.outgoing a).buffer.toList ++
      ((s.writersAt a).take 1).flatMap (·.2.unsent) := hs.sound.account
  have hmessages : s.messages a = (s.finishedAt a).flatMap Visit.message ++
      (((s.writersAt a).take 1).map Prod.fst).flatMap Visit.message := by
    rw [messages, hturns, List.flatMap_append]
  have hunsent : (((s.writersAt a).take 1).flatMap (·.2.unsent)).length ≤
      ((((s.writersAt a).take 1).map Prod.fst).flatMap Visit.message).length := by
    cases hline : s.writersAt a with
    | nil => simp
    | cons w rest =>
        have hw : w ∈ s.underway := by
          apply (List.mem_filter.mp _).1
          · exact inLine a true
          · rw [show s.underway.filter (inLine a true) = w :: rest from hline]
            exact List.mem_cons_self
        simpa using (hs.seated.proper w hw).fits.unsent.length_le
  apply List.prefix_of_prefix_length_le ⟨_, hmessages.symm⟩ ⟨_, haccount.symm⟩
  have hlength := congrArg List.length (hmessages.symm.trans haccount)
  simp only [List.length_append] at hlength hunsent ⊢
  omega

/-- A read that comes too late has taken nothing. -/
theorem Step.outgoing_of_timeout (h : Step allowed s s')
    (htimeout : s'.returned = s.returned ++ [(v, .error .timeout)]) (c : ChannelId) :
    s'.network.outgoing c = s.network.outgoing c := by
  cases h with
  | idle => simp at htimeout
  | pass time => simp at htimeout
  | @enters v' n' course hcall hticket hbegins =>
      cases course with
      | waits p => simp [noteTurns, enter] at htimeout
      | returned answer =>
          obtain ⟨rfl, rfl⟩ : v' = v ∧ answer = .error .timeout := by
            simpa [noteTurns, enter] using htimeout
          cases hbegins
  | @proceeds before after v' p n' course hsplit hgoes =>
      cases course with
      | waits p' => simp [noteTurns, proceed] at htimeout
      | returned answer =>
          obtain ⟨rfl, rfl⟩ : v' = v ∧ answer = .error .timeout := by
            simpa [noteTurns, proceed] using htimeout
          rw [network_noteTurns, network_proceed, Course.depart, LockPlace.leave,
            outgoing_lockOf_update]
          cases hgoes with
          | late => rfl

end Crowd

namespace Calls

/-- Through a pipe, as long as neither end is closed, messages go whole and in turn.  What was
read at the one end, and what is on its way there, are the messages of the writes to the other
from the first byte on, in the order in which the writes came to their turn.  Every write that
returned has succeeded, came to its turn before those that have not returned, and has all its
bytes read or on their way.  A read that comes too late leaves both ways as they were. -/
theorem messages_whole {n : Network} {a b : ChannelId} (hfresh : n.Fresh a b) (acts : List Act)
    (hacts : ∀ act ∈ acts, act.Keeps fun c call => (c = a ∨ c = b) ∧ call ≠ .close) :
    let s := (on n).run acts
    let underway := (s.network.outgoing a).buffer.toList
    s.bytesRead b <+: s.messages a ∧ s.bytesRead b ++ underway <+: s.messages a ∧
      (∀ r ∈ s.returned, r.1.channel = a → r.1.call.message?.isSome = true →
        r.2 = .ok [] ∧ r.1 ∈ s.finishedAt a) ∧
      s.finishedAt a <+: s.turnsAt a ∧
      (s.finishedAt a).flatMap Visit.message <+: s.bytesRead b ++ underway ∧
      ∀ act, (act.Keeps fun c call => (c = a ∨ c = b) ∧ call ≠ .close) → ∀ v,
        (s.act act).returned = s.returned ++ [(v, .error .timeout)] →
          ∀ c, (s.act act).network.outgoing c = s.network.outgoing c := by
  intro s underway
  obtain ⟨t, ht, hrun⟩ : ∃ t : Crowd Phase, t.Flows a b ∧ s = t.routines :=
    (Crowd.flows_on hfresh).run hacts
  have hturns : t.turnsAt a = t.finishedAt a ++ ((t.writersAt a).take 1).map Prod.fst :=
    ht.sound.turns
  have haccount : t.messages a = t.bytesRead b ++ (t.network.outgoing a).buffer.toList ++
      ((t.writersAt a).take 1).flatMap (·.2.unsent) := ht.sound.account
  have hunderway : t.bytesRead b ++ (t.network.outgoing a).buffer.toList <+: t.messages a :=
    ⟨_, haccount.symm⟩
  simp only [underway, hrun]
  refine ⟨(List.prefix_append _ _).trans hunderway, hunderway, ?_, ⟨_, hturns.symm⟩, ?_, ?_⟩
  · intro r hr hchannel hwrites
    refine ⟨ht.succeeded r hr hchannel hwrites, ?_⟩
    exact List.mem_filter.mpr ⟨List.mem_map_of_mem hr, by simp [hchannel, hwrites]⟩
  · exact ht.finished
  · intro act hact v htimeout c
    obtain ⟨t', hstep, heq⟩ := Crowd.exists_step ht.seated (fun _ _ h => h.1) hact
    rw [heq] at htimeout ⊢
    exact hstep.outgoing_of_timeout htimeout c

/-- A write and an urgent byte through a pipe that is too small for either. -/
theorem messages_whole_tight :
    let pipe := ({} : Network).addPipe 2 none none
    let s := (on pipe.2.2).run
      [.call pipe.1 (.write [1, 2, 3]), .call pipe.1 (.sendUrgent [255] 242), .goOn 0, .goOn 0,
        .call pipe.2.1 (.read 8), .goOn 2, .goOn 2, .goOn 0, .goOn 0, .goOn 0,
        .call pipe.2.1 (.read 8), .goOn 1, .goOn 1]
    s.bytesRead pipe.2.1 = [1, 2, 3, 255] ∧ s.messages pipe.1 = [1, 2, 3, 255, 242] ∧
      s.bytesRead pipe.2.1 <+: s.messages pipe.1 := by
  refine ⟨by decide +kernel, by decide +kernel, ?_⟩
  exact (messages_whole (fresh_addPipe {} 2 none none) _ (by simp [Act.Keeps])).1

end Calls

end RemoteConsole.Network
