/-
One way through a pipe.  Writes stand in line and write their messages whole, one after
another, and bytes are taken out in the order in which they were put in.  While neither end
is closed, no call on them does anything else.
-/
import RemoteConsole.Proofs.Network.Steps

namespace RemoteConsole.Network

/-! What has gone through a pipe, told from the calls. -/

/-- The message that a call writes. -/
def Visit.message (v : Visit) : List UInt8 :=
  v.call.message?.getD []

/-- The bytes that a call returned. -/
def bytesOf : Answer → List UInt8
  | .ok bytes => bytes
  | .error _ => []

namespace Crowd

variable {ρ : Type}

/-- The writes to a channel that came to their turn, in the order in which they did. -/
def turnsAt (s : Crowd ρ) (c : ChannelId) : List Visit :=
  s.turns.filter (·.channel = c)

/-- Their messages, one after another. -/
def messages (s : Crowd ρ) (c : ChannelId) : List UInt8 :=
  (s.turnsAt c).flatMap Visit.message

/-- The writes to a channel that returned, in the order in which they did. -/
def finishedAt (s : Crowd ρ) (c : ChannelId) : List Visit :=
  (s.returned.map Prod.fst).filter fun v => v.channel = c && v.call.message?.isSome

/-- The bytes that the reads from a channel returned, in the order in which they did. -/
def bytesRead (s : Crowd ρ) (c : ChannelId) : List UInt8 :=
  s.returned.flatMap fun r => if r.1.channel = c then bytesOf r.2 else []

end Crowd

/-! One way through a pipe. -/

/-- What a write has not written yet. -/
def Phase.unsent : Phase → List UInt8
  | queuing bytes => bytes
  | writing _ left => left
  | lining _ _ | reading _ _ => []

/-- A write has written its message up to what it has not written. -/
theorem Phase.Fits.unsent {p : Phase} {v : Visit} (h : p.Fits v.call) :
    p.unsent <:+ v.message := by
  cases p with
  | queuing bytes =>
      rw [Visit.message, show v.call.message? = some bytes from h]
      exact List.suffix_rfl
  | writing goes left =>
      obtain ⟨message, hmessage, hleft⟩ := h
      rw [Visit.message, hmessage]
      exact hleft
  | lining count timeout => exact List.nil_suffix
  | reading count deadline => exact List.nil_suffix

/-- One way through a pipe: the writes in line, those that came to their turn and those that
returned, and the bytes that were read and that are on their way. -/
structure Flow where
  line : List Waiter
  turns : List Visit
  finished : List Visit
  received : List UInt8
  buffer : List UInt8

namespace Flow

/-- What may happen to one way through a pipe. -/
inductive Step (f : Flow) : Flow → Prop where
  | still : f.Step f
  | queues {v bytes} (hcall : v.call.message? = some bytes) :
      f.Step { f with
        line := f.line ++ [(v, .queuing bytes)]
        turns := f.turns ++ if f.line = [] then [v] else [] }
  | begins {v goes bytes rest} (hline : f.line = (v, .queuing bytes) :: rest) :
      f.Step { f with line := (v, .writing goes bytes) :: rest }
  | fills {v goes goes' put left rest} (hline : f.line = (v, .writing goes (put ++ left)) :: rest) :
      f.Step { f with line := (v, .writing goes' left) :: rest, buffer := f.buffer ++ put }
  | finishes {v p rest} (hline : f.line = (v, p) :: rest) :
      f.Step { f with
        line := rest
        turns := f.turns ++ (rest.take 1).map Prod.fst
        finished := f.finished ++ [v]
        buffer := f.buffer ++ p.unsent }
  | takes {bytes rest} (hbuffer : f.buffer = bytes ++ rest) :
      f.Step { f with received := f.received ++ bytes, buffer := rest }

/-- Only the first in line has begun to write, and what has been written is, byte for byte,
the messages of those that came to their turn. -/
structure Sound (f : Flow) : Prop where
  waiting : ∀ w ∈ f.line.drop 1, w.2 = .queuing w.1.message
  turns : f.turns = f.finished ++ (f.line.take 1).map Prod.fst
  account : f.turns.flatMap Visit.message =
    f.received ++ f.buffer ++ (f.line.take 1).flatMap (·.2.unsent)

theorem Sound.step {f f' : Flow} (hf : f.Sound) (h : f.Step f') : f'.Sound := by
  obtain ⟨line, turns, finished, received, buffer⟩ := f
  cases h with
  | still => exact hf
  | @queues v bytes hcall =>
      have hmessage : v.message = bytes := by rw [Visit.message, hcall, Option.getD_some]
      cases line with
      | nil =>
          refine ⟨List.forall_mem_nil _, ?_, ?_⟩
          · simpa using hf.turns
          · simpa [hmessage, Phase.unsent, ← List.append_assoc] using hf.account
      | cons w rest =>
          refine ⟨?_, ?_, ?_⟩
          · simpa [hmessage, or_imp, forall_and] using hf.waiting
          · simpa using hf.turns
          · simpa using hf.account
  | begins hline =>
      cases hline
      exact ⟨hf.waiting, hf.turns, hf.account⟩
  | fills hline =>
      cases hline
      exact ⟨hf.waiting, hf.turns, by simpa [Phase.unsent] using hf.account⟩
  | @finishes v p rest hline =>
      cases hline
      have hturns : turns = finished ++ [v] := by simpa using hf.turns
      have haccount : turns.flatMap Visit.message = received ++ buffer ++ p.unsent := by
        simpa using hf.account
      refine ⟨fun w hw => hf.waiting w (List.mem_of_mem_drop hw), ?_, ?_⟩
      · rw [hturns]
      · -- The next in line has written nothing yet, so all of its message is still to come.
        have hnext : ((rest.take 1).map Prod.fst).flatMap Visit.message =
            (rest.take 1).flatMap (·.2.unsent) := by
          cases rest with
          | nil => rfl
          | cons w rest => simp [hf.waiting w List.mem_cons_self, Phase.unsent]
        rw [List.flatMap_append, haccount, hnext]
        simp only [List.append_assoc]
  | takes hbuffer =>
      cases hbuffer
      exact ⟨hf.waiting, hf.turns, by simpa using hf.account⟩

end Flow

/-! What calls do while both ends are open. -/

/-- Both ends of a pipe are open, and neither way through it is shut. -/
structure Calm (n : Network) (a b : ChannelId) : Prop where
  isOpen : isClosed a n = false
  isOpenFar : isClosed b n = false
  unshut : (n.outgoing a).closed = false
  unshutFar : (n.outgoing b).closed = false

section

variable {v : Visit} {n n' : Network} {a b : ChannelId} {course : Course Phase} {p : Phase}
  {time : Nat}

theorem Calm.isOpen_of (h : Calm n a b) (hv : v.channel = a ∨ v.channel = b) :
    isClosed v.channel n = false := by
  rcases hv with hv | hv
  · rw [hv, h.isOpen]
  · rw [hv, h.isOpenFar]

theorem Calm.unshut_of (h : Calm n a b) (hv : v.channel = a ∨ v.channel = b) :
    (n.outgoing v.channel).closed = false := by
  rcases hv with hv | hv
  · rw [hv, h.unshut]
  · rw [hv, h.unshutFar]

theorem Calm.unshut_incoming (h : Calm n a b) (hj : n.Joined a b)
    (hv : v.channel = a ∨ v.channel = b) : (n.incoming v.channel).closed = false := by
  rcases hv with hv | hv
  · rw [hv, hj.symm.incoming_eq, h.unshutFar]
  · rw [hv, hj.incoming_eq, h.unshut]

/-- A change of the pipes that shuts none. -/
theorem Calm.setPipe (h : Calm n a b) {i : Nat} {q : Pipe} (hq : q.closed = (n.pipe i).closed) :
    Calm (n.setPipe i q) a b :=
  ⟨h.isOpen, h.isOpenFar, (closed_setPipe hq).trans h.unshut,
    (closed_setPipe hq).trans h.unshutFar⟩

theorem Calm.arrive (h : Calm n a b) : Calm (course.arrive v n) a b := by
  cases course with
  | returned answer => exact h
  | waits p =>
      constructor
      all_goals simp only [Course.arrive, isClosed_lockOf_update, outgoing_lockOf_update]
      exacts [h.isOpen, h.isOpenFar, h.unshut, h.unshutFar]

theorem Calm.depart (h : Calm n a b) : Calm (course.depart v p n) a b := by
  cases course with
  | returned answer =>
      constructor
      all_goals
        simp only [Course.depart, LockPlace.leave, isClosed_lockOf_update, outgoing_lockOf_update]
      exacts [h.isOpen, h.isOpenFar, h.unshut, h.unshutFar]
  | waits p => exact h

/-- A call other than a close leaves open what is open. -/
theorem Visit.Begins.calm (h : v.Begins n n' course) (hcalm : Calm n a b)
    (hcall : v.call ≠ .close) : Calm n' a b := by
  cases h with
  | refused | queues | lines | idles => exact hcalm
  | sets =>
      constructor
      · rw [isClosed_updateEnd fun _ => by rfl, hcalm.isOpen]
      · rw [isClosed_updateEnd fun _ => by rfl, hcalm.isOpenFar]
      · rw [outgoing_updateEnd fun _ => by rfl, hcalm.unshut]
      · rw [outgoing_updateEnd fun _ => by rfl, hcalm.unshutFar]
  | shuts hclose => exact absurd hclose hcall
  | marks hclose => exact absurd hclose hcall

/-- While there are no closes, no read finds the end of the stream. -/
theorem not_drained (hcalm : Calm n a b) (hj : n.Joined a b)
    (hv : v.channel = a ∨ v.channel = b) {count : Nat} (hcount : count ≠ 0)
    (hend : (n.incoming v.channel).canRead = true) :
    ((n.incoming v.channel).take count).1 ≠ [] := by
  rw [Pipe.canRead, hcalm.unshut_incoming hj hv, Bool.or_false, Bool.not_eq_true'] at hend
  rw [Pipe.fst_take, ne_eq, List.take_eq_nil_iff, ← Buffer.isEmpty_iff, hend]
  simp [hcount]

theorem Visit.Goes.calm (h : v.Goes time n p n' course) (hcalm : Calm n a b)
    (hj : n.Joined a b) (hv : Proper a b (v, p)) : Calm n' a b := by
  cases h with
  | stays | turn | idles | cut | breaks | readTurn | readCut | late => exact hcalm
  | fills | finishes | takes => exact hcalm.setPipe rfl
  | drained hend hbytes => exact absurd hbytes (not_drained hcalm hj hv.here hv.sound hend)

/-- While there are no closes, no call is refused. -/
theorem Visit.Begins.succeeds {answer : Answer} (h : v.Begins n n' (.returned answer))
    (hcalm : Calm n a b) (hv : v.channel = a ∨ v.channel = b) : answer = .ok [] := by
  cases h with
  | refused _ hclosed =>
      rw [hcalm.isOpen_of hv] at hclosed
      cases hclosed
  | idles | sets | shuts | marks => rfl

/-- While there are no closes, no write fails. -/
theorem Visit.Goes.succeeds {answer : Answer} (h : v.Goes time n p n' (.returned answer))
    (hcalm : Calm n a b) (hv : v.channel = a ∨ v.channel = b) (hp : p.writes = true) :
    answer = .ok [] := by
  cases h with
  | idles | finishes => rfl
  | cut hclosed =>
      rw [hcalm.isOpen_of hv] at hclosed
      cases hclosed
  | breaks hbroken =>
      rw [hcalm.unshut_of hv] at hbroken
      cases hbroken
  | readCut hp' =>
      rw [hp] at hp'
      cases hp'
  | takes | drained | late => cases hp

/-- What a call that is no write to the near end takes out of the one way, it returns at the
far end. -/
theorem Visit.Goes.exists_taken (h : v.Goes time n p n' course) (hcalm : Calm n a b)
    (hj : n.Joined a b) (hv : Proper a b (v, p)) (hnot : ¬(v.channel = a ∧ p.writes = true)) :
    ∃ bytes, (n.outgoing a).buffer.toList = bytes ++ (n'.outgoing a).buffer.toList ∧
      (∀ p', course = .waits p' → bytes = []) ∧
        ∀ answer, course = .returned answer →
          (if v.channel = b then bytesOf answer else []) = bytes := by
  have hreturns (answer : Answer) (hanswer : bytesOf answer = []) (answer' : Answer)
      (heq : (Course.returned answer : Course Phase) = .returned answer') :
      (if v.channel = b then bytesOf answer' else []) = [] := by
    cases heq
    rw [hanswer, ite_self]
  cases h with
  | stays | turn | readTurn => exact ⟨[], rfl, fun _ _ => rfl, nofun⟩
  | idles | cut | breaks | readCut | late => exact ⟨[], rfl, fun _ _ => rfl, hreturns _ rfl⟩
  | fills =>
      have hfar : v.channel = b := hv.here.resolve_left fun hv => hnot ⟨hv, rfl⟩
      refine ⟨[], ?_, fun _ _ => rfl, nofun⟩
      rw [hfar, hj.outgoing_setPipe_far, List.nil_append]
  | finishes =>
      have hfar : v.channel = b := hv.here.resolve_left fun hv => hnot ⟨hv, rfl⟩
      refine ⟨[], ?_, fun _ _ => rfl, hreturns _ rfl⟩
      rw [hfar, hj.outgoing_setPipe_far, List.nil_append]
  | @takes count deadline hbytes =>
      rcases hv.here with hnear | hfar
      · replace hnear : v.channel = a := hnear
        refine ⟨[], ?_, nofun, ?_⟩
        · rw [hnear, hj.outgoing_setPipe_incoming_near, List.nil_append]
        · rintro _ ⟨⟩
          rw [if_neg (hnear ▸ hj.ne)]
      · replace hfar : v.channel = b := hfar
        refine ⟨((n.incoming v.channel).take count).1, ?_, nofun, ?_⟩
        · rw [hfar, hj.outgoing_setPipe_incoming, Pipe.take_append, hj.incoming_eq]
        · rintro _ ⟨⟩
          rw [if_pos hfar, bytesOf]
  | drained hend hbytes => exact absurd hbytes (not_drained hcalm hj hv.here hv.sound hend)

end

end RemoteConsole.Network
