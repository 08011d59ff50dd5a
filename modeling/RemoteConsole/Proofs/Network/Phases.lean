/-
Where a call on the end of a pipe waits, and what it can do from there.  A write waits for
its turn and then, as often as need be, for space; a read waits for its turn and then for
bytes.
-/
import RemoteConsole.Proofs.Network.Crowd
import RemoteConsole.Proofs.Network.Frame

namespace RemoteConsole.Network

/-- Where a call waits. -/
inductive Phase where
  /-- A write, for its turn. -/
  | queuing (bytes : List UInt8)
  /-- A write, for space: the bytes that are left, and how many goes it has after the next. -/
  | writing (goes : Nat) (left : List UInt8)
  /-- A read, for its turn. -/
  | lining (count : Nat) (timeout : Option Channel.Duration)
  /-- A read, for bytes. -/
  | reading (count : Nat) (deadline : Option Nat)

namespace Visit

variable (v : Visit)

/-- Make way for the next writer. -/
def writeLeave : Network → Network :=
  (writeLock v.channel).leave v.ticket

/-- Make way for the next reader. -/
def readLeave : Network → Network :=
  (readLock v.channel).leave v.ticket

/-- Write what is left, and then make way. -/
def writeOut (goes : Nat) (left : List UInt8) : Work Empty Answer := do
  let result ← (putBytes v.channel goes left).onAbandon v.writeLeave
  Routine.modify v.writeLeave
  return result.map fun () => []

/-- Take what is there, once the wait for it is over. -/
def takeNow (count : Nat) (ready : Bool) : Work Empty Answer := do
  if !ready then return .error .timeout
  Routine.modifyGet fun n =>
    if isClosed v.channel n then (.error .closed, n)
    else
      match (n.incoming v.channel).take count with
      | ([], _) => (.error .closed, markClosed v.channel n)
      | (bytes, p) => (.ok bytes, n.setPipe (n.pipeEnd v.channel).incoming p)

/-- Read, and then make way. -/
def readOut (work : Work Empty Answer) : Work Empty Answer := do
  let result ← work
  Routine.modify v.readLeave
  return result

end Visit

/-- What is left to do of a call where it waits. -/
def Phase.routine (v : Visit) : Phase → Work Empty Answer
  | queuing bytes => do
      let _ ← Routine.await
        { ready := fun n => ((writeLock v.channel).get n).isHeldBy v.ticket || false
          abandon := v.writeLeave }
      let _ ← Routine.get
      v.writeOut (bytes.length + 1) bytes
  | writing goes left => v.writeOut (goes + 1) left
  | lining count timeout => do
      let _ ← Routine.await
        { ready := fun n => ((readLock v.channel).get n).isHeldBy v.ticket || isClosed v.channel n
          abandon := v.readLeave }
      if ((readLock v.channel).get (← Routine.get)).isHeldBy v.ticket then
        v.readOut ((takeBytes v.channel count timeout).onAbandon v.readLeave)
      else v.readOut (pure (.error .closed))
  | reading count deadline => do
      let ready ← Routine.await
        { ready := fun n => isClosed v.channel n || (n.incoming v.channel).canRead
          deadline
          abandon := fun n => v.readLeave n }
      v.readOut ((v.takeNow count ready).onAbandon v.readLeave)

/-- Whether the lock that a call waits for or holds is that of those who write. -/
def Phase.writes : Phase → Bool
  | queuing _ | writing _ _ => true
  | lining _ _ | reading _ _ => false

/-- What is left to do of a call that has come so far. -/
def Course.routine (v : Visit) : Course Phase → Course (Work Empty Answer)
  | returned answer => .returned answer
  | waits p => .waits (p.routine v)

/-- A write that waits for space has bytes left, and goes enough for all of them.  A read
that waits asks for some. -/
def Phase.Sound : Phase → Prop
  | queuing _ => True
  | writing goes left => left ≠ [] ∧ left.length ≤ goes
  | lining count _ | reading count _ => count ≠ 0

/-- Ask for the lock, if a call that is made has to wait. -/
def Course.arrive (v : Visit) (n : Network) : Course Phase → Network
  | returned _ => n
  | waits p =>
      (lockOf v.channel p.writes).update (·.ask v.ticket) { n with tickets := n.tickets + 1 }

/-- Let go of the lock, if a call that goes on comes to its end. -/
def Course.depart (v : Visit) (p : Phase) (n : Network) : Course Phase → Network
  | returned _ => (lockOf v.channel p.writes).leave v.ticket n
  | waits _ => n

/-! What comes of a call as it is made. -/

/-- How far a call on the end of a pipe may come at once, and what it does to the network
besides asking for a lock. -/
inductive Visit.Begins (v : Visit) (n : Network) : Network → Course Phase → Prop where
  | refused (hcall : v.call.message? ≠ none ∨ ∃ count, v.call = .read count)
      (hclosed : isClosed v.channel n = true) : v.Begins n n (.returned (.error .notOpen))
  | queues {bytes} (hcall : v.call.message? = some bytes)
      (hopen : isClosed v.channel n = false) :
      v.Begins n n (.waits (.queuing bytes))
  | lines {count} (hcall : v.call = .read count) (hcount : count ≠ 0)
      (hopen : isClosed v.channel n = false) :
      v.Begins n n (.waits (.lining count (n.pipeEnd v.channel).timeout.get))
  /-- A read of no bytes, a call to close what is closed, a call for the echo. -/
  | idles (hcall : v.call.message? = none)
      (hclosed : v.call = .close → isClosed v.channel n = true) :
      v.Begins n n (.returned (.ok []))
  | sets {timeout} (hcall : v.call = .setReadTimeout timeout) :
      v.Begins n (n.updateEnd v.channel ({ · with timeout := .ofTimeout timeout }))
        (.returned (.ok []))
  | shuts (hcall : v.call = .close) (hopen : isClosed v.channel n = false)
      (hfree : ((writeLock v.channel).get (markClosed v.channel n)).isFree = true) :
      v.Begins n
        ((markClosed v.channel n).setPipe ((markClosed v.channel n).pipeEnd v.channel).outgoing
          ((markClosed v.channel n).outgoing v.channel).close)
        (.returned (.ok []))
  | marks (hcall : v.call = .close) (hopen : isClosed v.channel n = false)
      (hheld : ((writeLock v.channel).get (markClosed v.channel n)).isFree = false) :
      v.Begins n (markClosed v.channel n) (.returned (.ok []))

variable {v : Visit} {n : Network} {time : Nat}

/-- The end of a pipe is looked up as the channel that it is. -/
theorem lap_channel {c : ChannelId} {e : End} (hnode : n.nodes[c]? = some (.pipe e))
    (call : Channel.Call) :
    ((channel c).perform call : Work Empty Answer).lap time n =
      ((endChannel c).perform call).lap time n := by
  have hat : (channelAt n.nodes c : Channel (Work Empty)) = endChannel c := channelAt_pipe hnode
  cases call <;>
    simp only [Channel.perform, channel, lookedUp, bind_assoc, pure_bind, Routine.lap_get_bind, hat]

theorem lap_write (bytes : List UInt8) (hopen : isClosed v.channel n = false)
    (hv : v.ticket = n.tickets) :
    ((endChannel v.channel).perform (.write bytes) : Work Empty Answer).lap time n =
      ((writeLock v.channel).update (·.ask v.ticket) { n with tickets := n.tickets + 1 },
        (Phase.queuing bytes).routine v) := by
  simp only [Channel.perform, endChannel, writeEnd, LockPlace.holding, LockPlace.acquireUnless,
    LockPlace.ask, bind_assoc, pure_bind, Routine.lap_get_bind, hopen, Bool.false_eq_true,
    if_false, Routine.lap_modifyGet_bind, Routine.lap_await_bind, ← hv]
  rfl

theorem lap_write_closed (bytes : List UInt8) (hclosed : isClosed v.channel n = true) :
    ((endChannel v.channel).perform (.write bytes) : Work Empty Answer).lap time n =
      (n, pure (.error .notOpen)) := by
  simp only [Channel.perform, endChannel, writeEnd, bind_assoc, pure_bind, Routine.lap_get_bind,
    hclosed, if_true]
  rfl

theorem lap_read {count : Nat} (hopen : isClosed v.channel n = false) (hcount : count ≠ 0)
    (hv : v.ticket = n.tickets) :
    ((endChannel v.channel).perform (.read count) : Work Empty Answer).lap time n =
      ((readLock v.channel).update (·.ask v.ticket) { n with tickets := n.tickets + 1 },
        (Phase.lining count (n.pipeEnd v.channel).timeout.get).routine v) := by
  simp only [Channel.perform, endChannel, readEnd, LockPlace.acquireUnless,
    LockPlace.ask, bind_assoc, pure_bind, Routine.lap_get_bind, hopen, Bool.false_eq_true,
    if_false, hcount, Routine.lap_modifyGet_bind, Routine.lap_await_bind, ← hv]
  rfl

/-- What making a call on the end of a pipe comes to. -/
theorem begins (time : Nat) {e : End} (hnode : n.nodes[v.channel]? = some (.pipe e))
    (hv : v.ticket = n.tickets) :
    ∃ n' course, v.Begins n n' course ∧
      courseOf (((channel v.channel).perform v.call).lap time n) =
        (course.arrive v n', course.routine v) := by
  rw [lap_channel hnode]
  -- An urgent byte is written as a message like any other.
  have hwrite (bytes : List UInt8) (hcall : v.call.message? = some bytes) :
      ∃ n' course, v.Begins n n' course ∧
        courseOf (((endChannel v.channel).perform (.write bytes)).lap time n) =
          (course.arrive v n', course.routine v) := by
    cases hclosed : isClosed v.channel n with
    | true =>
        rw [lap_write_closed bytes hclosed]
        exact ⟨_, _, .refused (.inl (by simp [hcall])) hclosed, rfl⟩
    | false =>
        rw [lap_write bytes hclosed hv]
        exact ⟨_, _, .queues hcall hclosed, rfl⟩
  cases hcall : v.call with
  | read count =>
      cases hclosed : isClosed v.channel n with
      | true =>
          refine ⟨_, _, .refused (.inr ⟨count, hcall⟩) hclosed, ?_⟩
          simp only [Channel.perform, endChannel, readEnd, Routine.lap_get_bind, hclosed, if_true]
          rfl
      | false =>
          by_cases hcount : count = 0
          · refine ⟨_, _, .idles (by rw [hcall]; rfl) (by simp [hcall]), ?_⟩
            simp only [Channel.perform, endChannel, readEnd, Routine.lap_get_bind, hclosed,
              Bool.false_eq_true, if_false, hcount, if_true]
            rfl
          · rw [lap_read hclosed hcount hv]
            exact ⟨_, _, .lines hcall hcount hclosed, rfl⟩
  | write bytes => exact hwrite bytes (by rw [hcall]; rfl)
  | sendUrgent lead byte => exact hwrite (lead ++ [byte]) (by rw [hcall]; rfl)
  | close =>
      simp only [Channel.perform, endChannel, closeEnd, Routine.lap_modifyGet_bind]
      cases hclosed : isClosed v.channel n with
      | true => exact ⟨_, _, .idles (by rw [hcall]; rfl) fun _ => hclosed, rfl⟩
      | false =>
          cases hfree : ((writeLock v.channel).get (markClosed v.channel n)).isFree with
          | true =>
              refine ⟨_, _, .shuts hcall hclosed hfree, ?_⟩
              simp only [writeLock] at hfree
              simp only [Bool.false_eq_true, if_false, hfree, if_true]
              rfl
          | false =>
              refine ⟨_, _, .marks hcall hclosed hfree, ?_⟩
              simp only [writeLock] at hfree
              simp only [Bool.false_eq_true, if_false, hfree]
              rfl
  | setReadTimeout timeout => exact ⟨_, _, .sets hcall, rfl⟩
  | setLocalEcho enabled =>
      exact ⟨_, _, .idles (by rw [hcall]; rfl) (by simp [hcall]), rfl⟩

/-! What comes of a call as it goes on. -/

/-- How far a call on the end of a pipe may come from where it waits, and what it does to
the network besides letting go of a lock. -/
inductive Visit.Goes (v : Visit) (time : Nat) (n : Network) :
    Phase → Network → Course Phase → Prop where
  | stays (p : Phase) : v.Goes time n p n (.waits p)
  | turn {bytes} (hbytes : bytes ≠ []) (hturn : v.hasTurn n = true) :
      v.Goes time n (.queuing bytes) n (.waits (.writing bytes.length bytes))
  | idles (hturn : v.hasTurn n = true) : v.Goes time n (.queuing []) n (.returned (.ok []))
  | cut {goes left} (hclosed : isClosed v.channel n = true) :
      v.Goes time n (.writing goes left) n (.returned (.error .closed))
  | breaks {goes left} (hbroken : (n.outgoing v.channel).closed = true) :
      v.Goes time n (.writing goes left) n (.returned (.error brokenPipe))
  | fills {goes left} (hleft : ((n.outgoing v.channel).put left).1 ≠ [])
      (hgoes : ((n.outgoing v.channel).put left).1.length ≤ goes) :
      v.Goes time n (.writing (goes + 1) left)
        (n.setPipe (n.pipeEnd v.channel).outgoing ((n.outgoing v.channel).put left).2)
        (.waits (.writing goes ((n.outgoing v.channel).put left).1))
  | finishes {goes left} (hleft : ((n.outgoing v.channel).put left).1 = []) :
      v.Goes time n (.writing goes left)
        (n.setPipe (n.pipeEnd v.channel).outgoing ((n.outgoing v.channel).put left).2)
        (.returned (.ok []))
  | readTurn {count timeout} (hturn : ((readLock v.channel).get n).isHeldBy v.ticket = true) :
      v.Goes time n (.lining count timeout) n
        (.waits (.reading count (timeout.map fun d => time + d.milliseconds)))
  | readCut {p} (hp : p.writes = false) (hclosed : isClosed v.channel n = true) :
      v.Goes time n p n (.returned (.error .closed))
  | takes {count deadline} (hbytes : ((n.incoming v.channel).take count).1 ≠ []) :
      v.Goes time n (.reading count deadline)
        (n.setPipe (n.pipeEnd v.channel).incoming ((n.incoming v.channel).take count).2)
        (.returned (.ok ((n.incoming v.channel).take count).1))
  | drained {count deadline} (hend : (n.incoming v.channel).canRead = true)
      (hbytes : ((n.incoming v.channel).take count).1 = []) :
      v.Goes time n (.reading count deadline) (markClosed v.channel n)
        (.returned (.error .closed))
  | late {count deadline} : v.Goes time n (.reading count deadline) n (.returned (.error .timeout))

/-- A go at what is left. -/
theorem putBytes_succ {c : ChannelId} {goes : Nat} {left : List UInt8} (hleft : left ≠ []) :
    (putBytes c (goes + 1) left : Work Empty (Except Channel.Error Unit)) = (do
      let _ ← Routine.await { ready := fun n => isClosed c n || (n.outgoing c).canWrite }
      let rest : Except Channel.Error (List UInt8) ← Routine.modifyGet fun n =>
        if isClosed c n then (.error .closed, n)
        else if (n.outgoing c).closed then (.error brokenPipe, n)
        else (.ok ((n.outgoing c).put left).1,
          n.setPipe (n.pipeEnd c).outgoing ((n.outgoing c).put left).2)
      match rest with
      | .error e => return .error e
      | .ok rest => putBytes c goes rest) := by
  rw [putBytes, if_neg hleft]
  rfl

theorem lap_writeOut_nil (goes : Nat) :
    (v.writeOut goes []).lap time n = (v.writeLeave n, pure (.ok [])) := by
  cases goes with
  | zero => rfl
  | succ goes => rfl

theorem lap_writeOut {goes : Nat} {left : List UInt8} (hleft : left ≠ []) :
    (v.writeOut (goes + 1) left).lap time n = (n, (Phase.writing goes left).routine v) := by
  simp only [Phase.routine, Visit.writeOut, putBytes_succ hleft, Routine.onAbandon_bind,
    Routine.onAbandon_await, bind_assoc, Routine.lap_await_bind]

/-- A call in a phase waits. -/
theorem Phase.Sound.courseOf_routine {p : Phase} (hp : p.Sound) :
    courseOf (n, p.routine v) = (n, Course.routine v (.waits p)) := by
  cases p with
  | queuing bytes => rfl
  | writing goes left =>
      simp only [Course.routine, Phase.routine, Visit.writeOut, putBytes_succ hp.1]
      rfl
  | lining count timeout => rfl
  | reading count deadline => rfl

theorem goes_queuing (bytes : List UInt8) :
    ∃ n' course, v.Goes time n (.queuing bytes) n' course ∧
      courseOf (((Phase.queuing bytes).routine v).goOn time n) =
        (course.depart v (.queuing bytes) n', course.routine v) := by
  have hgo : ((Phase.queuing bytes).routine v).goOn time n =
      if v.hasTurn n then (v.writeOut (bytes.length + 1) bytes).lap time n
      else (n, (Phase.queuing bytes).routine v) := by
    simp only [Phase.routine, Routine.goOn_await_bind, Wait.isOver, Option.any_none,
      Bool.or_false, Routine.lap_get_bind]
    rfl
  rw [hgo]
  cases hturn : v.hasTurn n with
  | false => exact ⟨_, _, .stays _, rfl⟩
  | true =>
      rw [if_pos rfl]
      by_cases hbytes : bytes = []
      · rw [hbytes, lap_writeOut_nil]
        exact ⟨_, _, .idles hturn, rfl⟩
      · have hsound : (Phase.writing bytes.length bytes).Sound := ⟨hbytes, Nat.le_refl _⟩
        rw [lap_writeOut hbytes, hsound.courseOf_routine]
        exact ⟨_, _, .turn hbytes hturn, rfl⟩

theorem goOn_writing {goes : Nat} {left : List UInt8} (hleft : left ≠ []) :
    ((Phase.writing goes left).routine v).goOn time n =
      if isClosed v.channel n then (v.writeLeave n, pure (.error .closed))
      else if (n.outgoing v.channel).closed then (v.writeLeave n, pure (.error brokenPipe))
      else if 0 < (n.outgoing v.channel).space then
        (v.writeOut goes ((n.outgoing v.channel).put left).1).lap time
          (n.setPipe (n.pipeEnd v.channel).outgoing ((n.outgoing v.channel).put left).2)
      else (n, (Phase.writing goes left).routine v) := by
  simp only [Phase.routine, Visit.writeOut, putBytes_succ hleft, Routine.onAbandon_bind,
    Routine.onAbandon_await, bind_assoc, Routine.goOn_await_bind, Wait.isOver, Option.any_none,
    Bool.or_false, Routine.onAbandon_modifyGet, Routine.lap_modifyGet_bind, Pipe.canWrite]
  cases hclosed : isClosed v.channel n with
  | true => rfl
  | false =>
      cases hbroken : (n.outgoing v.channel).closed with
      | true => rfl
      | false =>
          simp only [Bool.false_or, decide_eq_true_eq, Bool.false_eq_true, if_false]

theorem goes_writing {goes : Nat} {left : List UInt8} (hleft : left ≠ [])
    (hgoes : left.length ≤ goes) :
    ∃ n' course, v.Goes time n (.writing goes left) n' course ∧
      courseOf (((Phase.writing goes left).routine v).goOn time n) =
        (course.depart v (.writing goes left) n', course.routine v) := by
  rw [goOn_writing hleft]
  cases hclosed : isClosed v.channel n with
  | true => exact ⟨_, _, .cut hclosed, rfl⟩
  | false =>
      cases hbroken : (n.outgoing v.channel).closed with
      | true => exact ⟨_, _, .breaks hbroken, rfl⟩
      | false =>
          simp only [Bool.false_eq_true, if_false]
          split
          next hspace =>
            -- A go puts in one byte at least, so that there are goes enough for the others.
            have hfewer : ((n.outgoing v.channel).put left).1.length < left.length := by
              have := List.length_pos_iff.mpr hleft
              simp only [Pipe.put, List.length_drop]
              omega
            by_cases hrest : ((n.outgoing v.channel).put left).1 = []
            · rw [hrest, lap_writeOut_nil]
              exact ⟨_, _, .finishes hrest, rfl⟩
            · cases goes with
              | zero => omega
              | succ goes =>
                  have hsound : (Phase.writing goes ((n.outgoing v.channel).put left).1).Sound :=
                    ⟨hrest, by omega⟩
                  rw [lap_writeOut hrest, hsound.courseOf_routine]
                  exact ⟨_, _, .fills hrest hsound.2, rfl⟩
          next =>
            have hsound : (Phase.writing goes left).Sound := ⟨hleft, hgoes⟩
            exact ⟨_, _, .stays _, hsound.courseOf_routine⟩

theorem goOn_lining {count : Nat} {timeout : Option Channel.Duration} :
    ((Phase.lining count timeout).routine v).goOn time n =
      if ((readLock v.channel).get n).isHeldBy v.ticket then
        (n, (Phase.reading count (timeout.map fun d => time + d.milliseconds)).routine v)
      else if isClosed v.channel n then (v.readLeave n, pure (.error .closed))
      else (n, (Phase.lining count timeout).routine v) := by
  simp only [Phase.routine, Routine.goOn_await_bind, Wait.isOver, Option.any_none, Bool.or_false,
    Routine.lap_get_bind]
  cases hturn : ((readLock v.channel).get n).isHeldBy v.ticket with
  | true => rfl
  | false =>
      cases hclosed : isClosed v.channel n with
      | true => rfl
      | false => rfl

theorem lap_readOut_takeNow {count : Nat} :
    (v.readOut ((v.takeNow count true).onAbandon v.readLeave)).lap time n =
      if isClosed v.channel n then (v.readLeave n, pure (.error .closed))
      else
        match (n.incoming v.channel).take count with
        | ([], _) => (v.readLeave (markClosed v.channel n), pure (.error .closed))
        | (bytes, p) =>
            (v.readLeave (n.setPipe (n.pipeEnd v.channel).incoming p), pure (.ok bytes)) := by
  simp only [Visit.readOut, Visit.takeNow, Bool.not_true, Bool.false_eq_true, if_false,
    Routine.onAbandon_modifyGet, Routine.lap_modifyGet_bind]
  split
  next => rfl
  next =>
    split
    next => rfl
    next => rfl

theorem goOn_reading {count : Nat} {deadline : Option Nat} :
    ((Phase.reading count deadline).routine v).goOn time n =
      if isClosed v.channel n || (n.incoming v.channel).canRead then
        (v.readOut ((v.takeNow count true).onAbandon v.readLeave)).lap time n
      else if deadline.any (· ≤ time) then (v.readLeave n, pure (.error .timeout))
      else (n, (Phase.reading count deadline).routine v) := by
  simp only [Phase.routine, Routine.goOn_await_bind, Wait.isOver]
  by_cases hready : (isClosed v.channel n || (n.incoming v.channel).canRead) = true
  · simp only [hready, Bool.true_or, if_true]
  · simp only [hready, Bool.false_or, Bool.false_eq_true, if_false]
    rfl

theorem goes_lining (count : Nat) (timeout : Option Channel.Duration) :
    ∃ n' course, v.Goes time n (.lining count timeout) n' course ∧
      courseOf (((Phase.lining count timeout).routine v).goOn time n) =
        (course.depart v (.lining count timeout) n', course.routine v) := by
  rw [goOn_lining]
  split
  next hturn => exact ⟨_, _, .readTurn hturn, rfl⟩
  next =>
    split
    next hclosed => exact ⟨_, _, .readCut rfl hclosed, rfl⟩
    next => exact ⟨_, _, .stays _, rfl⟩

theorem goes_reading (count : Nat) (deadline : Option Nat) :
    ∃ n' course, v.Goes time n (.reading count deadline) n' course ∧
      courseOf (((Phase.reading count deadline).routine v).goOn time n) =
        (course.depart v (.reading count deadline) n', course.routine v) := by
  rw [goOn_reading]
  split
  next hready =>
    rw [lap_readOut_takeNow]
    cases hclosed : isClosed v.channel n with
    | true => exact ⟨_, _, .readCut rfl hclosed, rfl⟩
    | false =>
        rw [hclosed, Bool.false_or] at hready
        simp only [Bool.false_eq_true, if_false]
        split
        next p htake => exact ⟨_, _, .drained hready (by rw [htake]), rfl⟩
        next bytes p hbytes htake =>
          have hgoes : v.Goes time n (.reading count deadline) _ _ :=
            .takes (by rw [htake]; exact hbytes)
          rw [htake] at hgoes
          exact ⟨_, _, hgoes, rfl⟩
  next =>
    split
    next => exact ⟨_, _, .late, rfl⟩
    next => exact ⟨_, _, .stays _, rfl⟩

/-- What going on with a call on the end of a pipe comes to. -/
theorem goes (time : Nat) {p : Phase} (hp : p.Sound) :
    ∃ n' course, v.Goes time n p n' course ∧
      courseOf ((p.routine v).goOn time n) =
        (course.depart v p n', course.routine v) := by
  cases p with
  | queuing bytes => exact goes_queuing bytes
  | writing goes left => exact goes_writing hp.1 hp.2
  | lining count timeout => exact goes_lining count timeout
  | reading count deadline => exact goes_reading count deadline

end RemoteConsole.Network
