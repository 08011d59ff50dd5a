/-
What closing an end of a pipe does for the far end.  A close that finds no writer at work
shuts the pipe for good, and then no read at the far end waits; a close that finds one leaves
the pipe as it is, and so do all after it.
-/
import RemoteConsole.Proofs.Network.Steps

namespace RemoteConsole.Network

section

variable {v : Visit} {n n' : Network} {a b c : ChannelId} {course : Course Phase} {p : Phase}
  {time : Nat}

/-! What shuts a pipe. -/

theorem closed_outgoing_setPipe {i : Nat} {p : Pipe} (hp : p.closed = (n.pipe i).closed) :
    ((n.setPipe i p).outgoing a).closed = (n.outgoing a).closed :=
  closed_setPipe hp

/-- A change that shuts no pipe and opens no channel. -/
structure KeepsShut (n n' : Network) (a : ChannelId) : Prop where
  outgoing : (n'.outgoing a).closed = (n.outgoing a).closed
  mark : isClosed a n = true → isClosed a n' = true

theorem KeepsShut.refl : KeepsShut n n a :=
  ⟨rfl, id⟩

theorem KeepsShut.trans {n'' : Network} (h : KeepsShut n n' a) (h' : KeepsShut n' n'' a) :
    KeepsShut n n'' a :=
  ⟨h'.outgoing.trans h.outgoing, fun hn => h'.mark (h.mark hn)⟩

/-- Once a call is made, it shuts nothing more. -/
theorem Visit.Goes.keepsShut (h : v.Goes time n p n' course) : KeepsShut n n' a := by
  cases h with
  | stays | turn | idles | cut | breaks | readTurn | readCut | late => exact ⟨rfl, id⟩
  | fills | finishes | takes => exact ⟨closed_outgoing_setPipe rfl, id⟩
  | drained =>
      exact ⟨by rw [outgoing_markClosed], isClosed_markClosed_of_isClosed⟩

/-- Only a close that finds the channel open shuts its pipe. -/
theorem Visit.Begins.keepsShut (h : v.Begins n n' course) (hj : n.Joined a b)
    (hv : v.channel = a ∨ v.channel = b)
    (hcall : v.call = .close → v.channel = a → isClosed a n = true) : KeepsShut n n' a := by
  cases h with
  | refused | queues | lines | idles => exact ⟨rfl, id⟩
  | @sets timeout =>
      have hsame : (n.updateEnd v.channel ({ · with timeout := .ofTimeout timeout })).outgoing a =
          n.outgoing a := outgoing_updateEnd fun _ => rfl
      constructor
      · rw [hsame]
      · intro h
        rw [isClosed_updateEnd fun _ => by rfl, h]
  | shuts hclose hopen =>
      have hne : v.channel = b := by
        rcases hv with hv | hv
        · rw [hv] at hopen
          rw [hcall hclose hv] at hopen
          cases hopen
        · exact hv
      subst hne
      constructor
      · rw [hj.markClosed.outgoing_setPipe_far, outgoing_markClosed]
      · exact isClosed_markClosed_of_isClosed
  | marks =>
      exact ⟨by rw [outgoing_markClosed], isClosed_markClosed_of_isClosed⟩

/-- What a close comes to that finds the channel open. -/
theorem Visit.Begins.close (h : v.Begins n n' course) (hclose : v.call = .close)
    (hopen : isClosed v.channel n = false) (hj : n.Joined v.channel b) :
    course = .returned (.ok []) ∧ isClosed v.channel n' = true ∧
      (n'.outgoing v.channel).closed =
        ((n.outgoing v.channel).closed || ((writeLock v.channel).get n).isFree) := by
  have hlock : (writeLock v.channel).get (markClosed v.channel n) = (writeLock v.channel).get n :=
    lockOf_get_markClosed (k := true)
  cases h with
  | refused hcall hclosed => simp [hopen] at hclosed
  | queues hcall => simp [hclose, Channel.Call.message?] at hcall
  | lines hcall => simp [hclose] at hcall
  | idles hcall hclosed =>
      rw [hclosed hclose] at hopen
      cases hopen
  | sets hcall => simp [hclose] at hcall
  | shuts _ _ hfree =>
      refine ⟨rfl, isClosed_markClosed hj.near, ?_⟩
      rw [hj.markClosed.outgoing_setPipe, ← hlock, hfree, Bool.or_true]
      rfl
  | marks _ _ hheld =>
      refine ⟨rfl, isClosed_markClosed hj.near, ?_⟩
      rw [outgoing_markClosed, ← hlock, hheld, Bool.or_false]

theorem Course.arrive_keepsShut : KeepsShut n (course.arrive v n) a := by
  cases course with
  | returned answer => exact ⟨rfl, id⟩
  | waits p =>
      exact ⟨congrArg Pipe.closed outgoing_lockOf_update,
        fun h => isClosed_lockOf_update.trans h⟩

theorem Course.depart_keepsShut : KeepsShut n (course.depart v p n) a := by
  cases course with
  | returned answer =>
      exact ⟨congrArg Pipe.closed outgoing_lockOf_update,
        fun h => isClosed_lockOf_update.trans h⟩
  | waits p => exact ⟨rfl, id⟩

end

namespace Crowd

variable {s s' : Crowd Phase} {a b : ChannelId} {allowed : ChannelId → Channel.Call → Prop}

/-- A step shuts no pipe, unless it marks the channel as well. -/
theorem Step.keepsShut (h : Step allowed s s') (hs : s.network.Seated a b s.underway)
    (hallowed : ∀ c call, allowed c call → c = a ∨ c = b) :
    KeepsShut s.network s'.network a ∨
      isClosed a s.network = false ∧ isClosed a s'.network = true := by
  cases h with
  | idle => exact .inl .refl
  | pass time => exact .inl .refl
  | @enters v n' course hcall hticket hbegins =>
      rw [network_noteTurns, network_enter]
      have harrive : KeepsShut n' (course.arrive v n') a := Course.arrive_keepsShut
      by_cases hclose : v.call = .close ∧ v.channel = a ∧ isClosed a s.network = false
      · obtain ⟨hclose, rfl, hopen⟩ := hclose
        obtain ⟨-, hmark, -⟩ := hbegins.close hclose hopen hs.joined
        exact .inr ⟨hopen, harrive.mark hmark⟩
      · refine .inl ((hbegins.keepsShut hs.joined (hallowed _ _ hcall) ?_).trans harrive)
        intro hcall hchannel
        by_contra hopen
        exact hclose ⟨hcall, hchannel, by simpa using hopen⟩
  | proceeds hunderway hgoes =>
      rw [network_noteTurns, network_proceed]
      exact .inl (hgoes.keepsShut.trans Course.depart_keepsShut)

/-- Whose pipe is shut is marked closed. -/
structure Guarded (s : Crowd Phase) (a b : ChannelId) : Prop where
  seated : s.network.Seated a b s.underway
  marked : (s.network.outgoing a).closed = true → isClosed a s.network = true

/-- Once a channel is marked closed, its pipe stays shut or stays unshut. -/
structure Settled (s : Crowd Phase) (a b : ChannelId) (shut : Bool) : Prop where
  seated : s.network.Seated a b s.underway
  marked : isClosed a s.network = true
  shut_eq : (s.network.outgoing a).closed = shut

theorem Guarded.step (hs : s.Guarded a b) (h : Step allowed s s')
    (hallowed : ∀ c call, allowed c call → c = a ∨ c = b) : s'.Guarded a b where
  seated := h.seated hs.seated hallowed
  marked := by
    intro hshut
    rcases h.keepsShut hs.seated hallowed with hkeeps | ⟨-, hmark⟩
    · rw [hkeeps.outgoing] at hshut
      exact hkeeps.mark (hs.marked hshut)
    · exact hmark

theorem Settled.step {shut : Bool} (hs : s.Settled a b shut) (h : Step allowed s s')
    (hallowed : ∀ c call, allowed c call → c = a ∨ c = b) : s'.Settled a b shut := by
  rcases h.keepsShut hs.seated hallowed with hkeeps | ⟨hopen, -⟩
  · exact ⟨h.seated hs.seated hallowed, hkeeps.mark hs.marked, hkeeps.outgoing.trans hs.shut_eq⟩
  · rw [hs.marked] at hopen
    cases hopen

theorem Guarded.run (hs : s.Guarded a b) {acts : List Act}
    (hacts : ∀ act ∈ acts, act.Keeps fun c _ => c = a ∨ c = b) :
    ∃ s' : Crowd Phase, s'.Guarded a b ∧ s.routines.run acts = s'.routines := by
  apply run_induction (I := (Guarded · a b)) _ (fun _ _ => id) _ hs hacts
  · exact fun s hs => hs.seated
  · exact fun s s' hs h => hs.step h fun _ _ => id

theorem Settled.run {shut : Bool} (hs : s.Settled a b shut) {acts : List Act}
    (hacts : ∀ act ∈ acts, act.Keeps fun c _ => c = a ∨ c = b) :
    ∃ s' : Crowd Phase, s'.Settled a b shut ∧ s.routines.run acts = s'.routines := by
  apply run_induction (I := (Settled · a b shut)) _ (fun _ _ => id) _ hs hacts
  · exact fun s hs => hs.seated
  · exact fun s s' hs h => hs.step h fun _ _ => id

theorem guarded_on {n : Network} (h : n.Fresh a b) : (on n).Guarded a b where
  seated := seated_on h
  marked := by
    intro hshut
    rw [on, h.unshut] at hshut
    cases hshut

/-- A close that finds the channel open settles whether its pipe is shut. -/
theorem Guarded.close (hs : s.Guarded a b) (hopen : isClosed a s.network = false) :
    ∃ s' : Crowd Phase, s'.Settled a b ((writeLock a).get s.network).isFree ∧
      s.routines.act (.call a .close) = s'.routines ∧
        s'.returned = s.returned ++ [(⟨a, .close, s.network.tickets⟩, .ok [])] := by
  obtain ⟨n', course, hbegins, hact⟩ := exists_begins hs.seated (.inl rfl) .close
  have hstep : Step (fun c _ => c = a ∨ c = b) s _ := .enters (.inl rfl) rfl hbegins
  obtain ⟨rfl, hmark, hshut⟩ := hbegins.close rfl hopen hs.seated.joined
  have hunshut : (s.network.outgoing a).closed = false := by
    by_contra hshut
    rw [hs.marked (by simpa using hshut)] at hopen
    cases hopen
  refine ⟨_, ⟨hstep.seated hs.seated fun _ _ => id, hmark, ?_⟩, hact, rfl⟩
  change (n'.outgoing a).closed = _
  rw [hshut, hunshut, Bool.false_or]

/-- The lock of the writers is free if no write is under way. -/
theorem isFree_writeLock (hs : s.network.Seated a b s.underway) :
    ((writeLock a).get s.network).isFree = true ↔
      ∀ w ∈ s.underway, w.1.channel = a → w.1.call.message? = none := by
  change ((lockOf a true).get s.network).isFree = true ↔ _
  rw [hs.lines a (.inl rfl), Lock.isFree_ofLine, lineOf, List.map_eq_nil_iff,
    List.filter_eq_nil_iff]
  refine forall₂_congr fun w hw => ?_
  rw [inLine_iff, (hs.proper w hw).fits.writes, not_and, eq_comm]
  refine imp_congr_right fun _ => ?_
  rw [eq_comm, Bool.not_eq_true, Option.isSome_eq_false_iff, Option.isNone_iff_eq_none]

end Crowd

/-! What a reader finds. -/

/-- What a read finds in a pipe that is shut: bytes that are left, or else the end. -/
def Pipe.found (p : Pipe) (count : Nat) : Answer :=
  if p.buffer.isEmpty then .error .closed else .ok (p.buffer.toList.take count)

section

variable {v : Visit} {n : Network} {time count : Nat}

theorem advance_reading {deadline : Option Nat} (hopen : isClosed v.channel n = false)
    (hshut : (n.incoming v.channel).closed = true) (hcount : count ≠ 0) :
    ∃ n', ((Phase.reading count deadline).routine v).advance time n =
      (n', [], .done ((n.incoming v.channel).found count)) := by
  have hready : (isClosed v.channel n || (n.incoming v.channel).canRead) = true := by
    rw [Pipe.canRead, hshut, Bool.or_true, Bool.or_true]
  have hempty : ((n.incoming v.channel).take count).1 = [] ↔
      (n.incoming v.channel).buffer.isEmpty = true := by
    rw [Pipe.fst_take, Buffer.isEmpty_iff, List.take_eq_nil_iff]
    exact ⟨fun h => h.resolve_left hcount, .inr⟩
  rw [← Routine.advance_goOn, goOn_reading, if_pos hready, lap_readOut_takeNow, hopen,
    Pipe.found]
  simp only [Bool.false_eq_true, if_false]
  split
  next p htake =>
    rw [if_pos (hempty.mp (by rw [htake]))]
    exact ⟨_, rfl⟩
  next bytes p hbytes htake =>
    rw [if_neg fun h => hbytes (by rw [← hempty.mpr h, htake]), ← Pipe.fst_take, htake]
    exact ⟨_, rfl⟩

theorem advance_lining {timeout : Option Channel.Duration}
    (hturn : ((readLock v.channel).get n).isHeldBy v.ticket = true)
    (hopen : isClosed v.channel n = false) (hshut : (n.incoming v.channel).closed = true)
    (hcount : count ≠ 0) :
    ∃ n', ((Phase.lining count timeout).routine v).advance time n =
      (n', [], .done ((n.incoming v.channel).found count)) := by
  rw [← Routine.advance_goOn, goOn_lining, if_pos hturn]
  exact advance_reading hopen hshut hcount

variable {a b : ChannelId} {ws : List Waiter} {p : Phase}

/-- The read whose turn it is does not wait. -/
theorem Seated.advance_underway (hs : n.Seated a b ws) (hw : (v, p) ∈ ws)
    (hv : v.channel = b) (hcall : v.call = .read count)
    (hturn : ((readLock b).get n).isHeldBy v.ticket = true) (hopen : isClosed b n = false)
    (hshut : (n.outgoing a).closed = true) :
    ∃ n', (p.routine v).advance time n = (n', [], .done ((n.outgoing a).found count)) := by
  subst hv
  have hv := hs.proper _ hw
  rw [← hs.joined.incoming_eq] at hshut ⊢
  have hfits := hv.fits
  cases p with
  | queuing bytes => simp [Phase.Fits, hcall, Channel.Call.message?] at hfits
  | writing goes left => simp [Phase.Fits, hcall, Channel.Call.message?] at hfits
  | lining count' timeout =>
      obtain rfl : count = count' := by simpa [Phase.Fits, hcall] using hfits
      exact advance_lining hturn hopen hshut hv.sound
  | reading count' deadline =>
      obtain rfl : count = count' := by simpa [Phase.Fits, hcall] using hfits
      exact advance_reading hopen hshut hv.sound

/-- A read that is made when no other is under way does not wait. -/
theorem Seated.advance_new (hs : n.Seated a b ws)
    (hnone : ∀ w ∈ ws, w.1.channel = b → ∀ count, w.1.call ≠ .read count)
    (hopen : isClosed b n = false) (hshut : (n.outgoing a).closed = true) (hcount : count ≠ 0) :
    ∃ n', ((channel b).perform (.read count) : Work Empty Answer).advance time n =
      (n', [], .done ((n.outgoing a).found count)) := by
  obtain ⟨e, he⟩ := hs.joined.far
  have hline : lineOf ws b false = [] := by
    rw [lineOf, List.map_eq_nil_iff, List.filter_eq_nil_iff]
    intro w hw hin
    obtain ⟨hchannel, hwrites⟩ := inLine_iff.mp hin
    have hfits := (hs.proper w hw).fits
    obtain ⟨v, p⟩ := w
    cases p with
    | queuing bytes => cases hwrites
    | writing goes left => cases hwrites
    | lining count timeout => exact hnone _ hw hchannel.symm count hfits
    | reading count deadline => exact hnone _ hw hchannel.symm count hfits
  -- The read is the first in its line at once, and goes on like one under way.
  obtain ⟨v, hv⟩ : ∃ v : Visit, v = ⟨b, .read count, n.tickets⟩ := ⟨_, rfl⟩
  obtain ⟨p, hp⟩ : ∃ p, p = Phase.lining count (n.pipeEnd b).timeout.get := ⟨_, rfl⟩
  have harrive := hs.arrive (v := v) (p := p)
    ⟨.inr (by rw [hv]), by rw [hp]; exact hcount, by rw [hp, hv]; rfl⟩ (by rw [hv])
  obtain ⟨n₁, hn₁⟩ : ∃ n₁, n₁ = (Course.waits p).arrive v n := ⟨_, rfl⟩
  rw [← hn₁] at harrive
  have hlap : ((channel b).perform (.read count) : Work Empty Answer).lap time n =
      (n₁, p.routine v) := by
    rw [lap_channel he, hn₁, hp, hv]
    exact lap_read (v := ⟨b, .read count, n.tickets⟩) hopen hcount rfl
  have hturn : ((readLock b).get n₁).isHeldBy v.ticket = true := by
    change ((lockOf b false).get n₁).isHeldBy v.ticket = true
    rw [harrive.lines b (.inr rfl), Lock.isHeldBy_ofLine, lineOf_append, hline, hp, hv]
    simp [lineOf, inLine, Phase.writes]
  have hsame : n₁.outgoing a = n.outgoing a := by
    rw [hn₁, Course.arrive, outgoing_lockOf_update]
    rfl
  have hmark : isClosed b n₁ = isClosed b n := by
    rw [hn₁, Course.arrive, isClosed_lockOf_update]
    rfl
  rw [← Routine.advance_lap, hlap, ← hsame]
  exact harrive.advance_underway (by simp) (by rw [hv]) (by rw [hv]) hturn
    (hmark.trans hopen) (hsame ▸ hshut)

end

namespace Calls

/-- No read at an end has to wait: not the one whose turn it is, nor one that is made when none
is under way.  They return what is left in a pipe. -/
structure Drains (s : Calls) (b : ChannelId) (p : Pipe) : Prop where
  underway : ∀ w ∈ s.underway, ∀ count, w.1.channel = b → w.1.call = .read count →
    ((readLock b).get s.network).isHeldBy w.1.ticket = true →
      ∃ n, w.2.advance s.time s.network = (n, [], .done (p.found count))
  new : (∀ w ∈ s.underway, w.1.channel = b → ∀ count, w.1.call ≠ .read count) →
    ∀ count, count ≠ 0 → ∃ n,
      ((channel b).perform (.read count) : Work Empty Answer).advance s.time s.network =
        (n, [], .done (p.found count))

theorem drains_routines {s : Crowd Phase} {a b : ChannelId}
    (hs : s.network.Seated a b s.underway) (hopen : isClosed b s.network = false)
    (hshut : (s.network.outgoing a).closed = true) :
    s.routines.Drains b (s.network.outgoing a) where
  underway := by
    intro w hw count hchannel hcall hturn
    obtain ⟨⟨v, p⟩, hv, rfl⟩ := List.mem_map.mp hw
    exact hs.advance_underway hv hchannel hcall hturn hopen hshut
  new hnone count hcount :=
    hs.advance_new (List.forall_mem_map.mp hnone) hopen hshut hcount

/-- A close of an end of a pipe that finds the end open returns at once.  From then on, for
good, the pipe is shut if no write was under way there when the close came, and is not if one
was.  Once the pipe is shut, the reads at the far end find what is left in it and then the end
of the stream. -/
theorem close_shuts {n : Network} {a b : ChannelId} (hfresh : n.Fresh a b)
    (before after : List Act) (hbefore : ∀ act ∈ before, act.Keeps fun c _ => c = a ∨ c = b)
    (hafter : ∀ act ∈ after, act.Keeps fun c _ => c = a ∨ c = b)
    (hopen : isClosed a ((on n).run before).network = false) :
    let found := (on n).run before
    let closed := found.act (.call a .close)
    let later := closed.run after
    closed.returned = found.returned ++ [(⟨a, .close, found.network.tickets⟩, .ok [])] ∧
      ((later.network.outgoing a).closed = true ↔
        ∀ w ∈ found.underway, w.1.channel = a → w.1.call.message? = none) ∧
      ((later.network.outgoing a).closed = true → isClosed b later.network = false →
        later.Drains b (later.network.outgoing a)) := by
  intro found closed later
  obtain ⟨s, hs, hfound⟩ : ∃ s : Crowd Phase, s.Guarded a b ∧ found = s.routines :=
    (Crowd.guarded_on hfresh).run hbefore
  have hopen : isClosed a s.network = false := by
    rw [show s.network = found.network from (congrArg Crowd.network hfound).symm, hopen]
  obtain ⟨s₁, hs₁, hclosed, hreturned⟩ := hs.close hopen
  obtain ⟨s₂, hs₂, hlater⟩ : ∃ s₂ : Crowd Phase, s₂.Settled a b _ ∧ later = s₂.routines := by
    rw [show later = s₁.routines.run after by rw [← hclosed, ← hfound]]
    exact hs₁.run hafter
  rw [show closed = s₁.routines by rw [← hclosed, ← hfound], hlater, hfound]
  refine ⟨hreturned, ?_, fun hshut hopen => ?_⟩
  · change (s₂.network.outgoing a).closed = true ↔ _
    rw [hs₂.shut_eq, Crowd.isFree_writeLock hs.seated]
    simp only [Crowd.routines, List.forall_mem_map]
  · exact drains_routines hs₂.seated hopen hshut

/-- A write that has ended is no hindrance, at the far end as little as at the near one. -/
theorem close_shuts_written :
    let pipe := ({} : Network).addPipe 4 none none
    let before := [.call pipe.2.1 (.write [97]), .goOn 0, .goOn 0]
    let found := (on pipe.2.2).run before
    isClosed pipe.2.1 found.network = false ∧
      (((found.act (.call pipe.2.1 .close)).run []).network.outgoing pipe.2.1).closed = true := by
  have hopen : isClosed (({} : Network).addPipe 4 none none).2.1
      ((on (({} : Network).addPipe 4 none none).2.2).run
        [.call (({} : Network).addPipe 4 none none).2.1 (.write [97]), .goOn 0,
          .goOn 0]).network = false := by
    decide +kernel
  have hshuts := close_shuts (fresh_addPipe {} 4 none none).symm
    [.call (({} : Network).addPipe 4 none none).2.1 (.write [97]), .goOn 0, .goOn 0] []
    (by simp [Act.Keeps]) (by simp) hopen
  exact ⟨hopen, hshuts.2.1.mpr (by decide +kernel)⟩

/-- A close while a write waits for space leaves the pipe as it is, also once that write has
ended and no call is under way.  A reader at the far end finds what was written, and then
waits for more. -/
theorem close_leaves_unshut :
    let pipe := ({} : Network).addPipe 1 none none
    let s := (on pipe.2.2).run
      [.call pipe.1 (.write [97, 98]), .goOn 0, .goOn 0, .call pipe.1 .close, .goOn 0]
    let later := s.run
      [.call pipe.2.1 (.read 8), .goOn 0, .goOn 0, .call pipe.2.1 (.read 8), .goOn 0]
    s.underway.length = 0 ∧
      s.returned.map (·.1.call) = [.close, .write [97, 98]] ∧
      (s.network.outgoing pipe.1).closed = false ∧
      later.returned.map (·.1.call) = [.close, .write [97, 98], .read 8] ∧
      (later.run [.pass 3600000, .goOn 0]).underway.map (·.1.call) = [.read 8] := by
  decide +kernel

end Calls

end RemoteConsole.Network
