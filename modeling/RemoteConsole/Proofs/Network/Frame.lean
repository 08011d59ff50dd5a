/-
What a change of one thing in a network leaves as it was, and the two ends of one pipe.
-/
import Mathlib.Tactic.Common
import RemoteConsole.Network.Channel

namespace RemoteConsole.Network

/-! Locks as lines. -/

namespace Lock

/-- The lock for which tickets stand in line, the first of them holding it. -/
def ofLine : List Nat → Lock
  | [] => {}
  | ticket :: line => ⟨some ticket, line⟩

theorem isFree_ofLine {line : List Nat} : (ofLine line).isFree = true ↔ line = [] := by
  cases line with
  | nil => simp [ofLine, isFree]
  | cons ticket line => simp [ofLine, isFree]

theorem isHeldBy_ofLine {line : List Nat} {ticket : Nat} :
    (ofLine line).isHeldBy ticket = true ↔ line.head? = some ticket := by
  cases line with
  | nil => simp [ofLine, isHeldBy]
  | cons first line => simp [ofLine, isHeldBy]

/-- Who asks goes to the end of the line. -/
theorem ask_ofLine (line : List Nat) (ticket : Nat) :
    (ofLine line).ask ticket = ofLine (line ++ [ticket]) := by
  cases line with
  | nil => rfl
  | cons first line => rfl

/-- Who leaves makes no difference to the others in the line. -/
theorem leave_ofLine {before after : List Nat} {ticket : Nat} (hbefore : ticket ∉ before)
    (hafter : ticket ∉ after) :
    (ofLine (before ++ ticket :: after)).leave ticket = ofLine (before ++ after) := by
  cases before with
  | nil =>
      cases after with
      | nil => simp [ofLine, leave, isHeldBy, pass]
      | cons next after => simp [ofLine, leave, isHeldBy, pass]
  | cons first before =>
      have hne : first ≠ ticket := fun heq => hbefore (heq ▸ List.mem_cons_self)
      have hrest : (before ++ ticket :: after).filter (· ≠ ticket) = before ++ after := by
        rw [List.filter_append, List.filter_cons_of_neg (by simp)]
        rw [List.filter_eq_self.mpr, List.filter_eq_self.mpr]
        · exact fun t ht => by simpa using fun heq : t = ticket => hafter (heq ▸ ht)
        · exact fun t ht => by
            simpa using fun heq : t = ticket => hbefore (heq ▸ List.mem_cons_of_mem _ ht)
      simp only [List.cons_append, ofLine, leave, isHeldBy, Option.some.injEq, hne,
        decide_false, Bool.false_eq_true, if_false, hrest]

end Lock

/-! Pipes. -/

/-- The bytes taken are the oldest. -/
theorem Pipe.fst_take (p : Pipe) (count : Nat) :
    (p.take count).1 = p.buffer.toList.take count := by
  have hlength : (p.take count).1.length = min count p.buffer.toList.length := by
    rw [Buffer.length_toList]
    exact p.buffer.length_take count
  have hprefix : (p.take count).1 <+: p.buffer.toList := ⟨_, p.take_append count⟩
  rw [List.prefix_iff_eq_take.mp hprefix, hlength, ← List.take_eq_take_min]

/-! One change at a time. -/

variable {n : Network} {c c' : ChannelId} {f : End → End} {i : Nat} {p : Pipe}

/-- Whether a channel is the end of a pipe. -/
def IsEnd (n : Network) (c : ChannelId) : Prop :=
  ∃ e, n.nodes[c]? = some (.pipe e)

theorem updateEnd_eq {e : End} (h : n.nodes[c]? = some (.pipe e)) :
    n.updateEnd c f = n.setNode c (.pipe (f e)) := by
  rw [updateEnd, h]

theorem pipeEnd_eq {e : End} (h : n.nodes[c]? = some (.pipe e)) : n.pipeEnd c = e := by
  rw [pipeEnd, h]

theorem channelAt_pipe {J : Type} {nodes : Array Node} {e : End} (h : nodes[c]? = some (.pipe e)) :
    (channelAt nodes c : Channel (Work J)) = endChannel c := by
  rw [channelAt, h]

theorem pipeEnd_updateEnd_self (h : n.IsEnd c) :
    (n.updateEnd c f).pipeEnd c = f (n.pipeEnd c) := by
  obtain ⟨e, he⟩ := h
  obtain ⟨hlt, _⟩ := Array.getElem?_eq_some_iff.mp he
  rw [updateEnd_eq he, pipeEnd_eq he]
  apply pipeEnd_eq
  simp [setNode, hlt]

theorem nodes_updateEnd_of_ne (h : c' ≠ c) : (n.updateEnd c f).nodes[c']? = n.nodes[c']? := by
  unfold updateEnd
  split
  next => simp [setNode, h.symm]
  next => rfl

theorem pipeEnd_updateEnd_of_ne (h : c' ≠ c) :
    (n.updateEnd c f).pipeEnd c' = n.pipeEnd c' := by
  rw [pipeEnd, nodes_updateEnd_of_ne h, pipeEnd]

theorem IsEnd.updateEnd (h : n.IsEnd c') : (n.updateEnd c f).IsEnd c' := by
  by_cases hc : c' = c
  · obtain ⟨e, he⟩ := h
    subst hc
    obtain ⟨hlt, _⟩ := Array.getElem?_eq_some_iff.mp he
    rw [updateEnd_eq he]
    exact ⟨f e, by simp [setNode, hlt]⟩
  · rw [IsEnd, nodes_updateEnd_of_ne hc]
    exact h

@[simp] theorem pipes_updateEnd : (n.updateEnd c f).pipes = n.pipes := by
  unfold updateEnd
  split
  next => rfl
  next => rfl

@[simp] theorem tickets_updateEnd : (n.updateEnd c f).tickets = n.tickets := by
  unfold updateEnd
  split
  next => rfl
  next => rfl

@[simp] theorem pipe_updateEnd : (n.updateEnd c f).pipe i = n.pipe i := by
  rw [pipe, pipes_updateEnd, pipe]

@[simp] theorem pipeEnd_setPipe : (n.setPipe i p).pipeEnd c = n.pipeEnd c :=
  rfl

@[simp] theorem size_setPipe : (n.setPipe i p).pipes.size = n.pipes.size := by
  simp [setPipe]

theorem pipe_setPipe_self (hi : i < n.pipes.size) : (n.setPipe i p).pipe i = p := by
  simp [pipe, setPipe, Array.getD, hi]

theorem pipe_setPipe_of_ne {j : Nat} (hj : j ≠ i) : (n.setPipe i p).pipe j = n.pipe j := by
  simp only [pipe, setPipe, Array.getD_eq_getD_getElem?, Array.getElem?_setIfInBounds_ne hj.symm]

theorem updateEnd_of_not_isEnd (h : ¬n.IsEnd c) : n.updateEnd c f = n := by
  unfold updateEnd
  split
  next e he => exact absurd ⟨e, he⟩ h
  next => rfl

/-- To put a pipe in the place of one that is as much shut shuts nothing. -/
theorem closed_setPipe {i j : Nat} {p : Pipe} (hp : p.closed = (n.pipe i).closed) :
    ((n.setPipe i p).pipe j).closed = (n.pipe j).closed := by
  by_cases hj : j = i
  · subst hj
    by_cases hi : j < n.pipes.size
    · rw [pipe_setPipe_self hi, hp]
    · simp [pipe, setPipe, hi]
  · rw [pipe_setPipe_of_ne hj]

/-- What a change of an end does not touch is as it was, at every end. -/
theorem field_updateEnd {γ : Type} (field : End → γ) (hf : ∀ e, field (f e) = field e) :
    field ((n.updateEnd c f).pipeEnd c') = field (n.pipeEnd c') := by
  by_cases hc : c' = c
  · subst hc
    by_cases hend : n.IsEnd c'
    · rw [pipeEnd_updateEnd_self hend, hf]
    · rw [updateEnd_of_not_isEnd hend]
  · rw [pipeEnd_updateEnd_of_ne hc]

theorem outgoing_updateEnd (hf : ∀ e, (f e).outgoing = e.outgoing) :
    (n.updateEnd c f).outgoing c' = n.outgoing c' := by
  rw [outgoing, pipe_updateEnd, field_updateEnd End.outgoing hf, outgoing]

theorem isClosed_updateEnd (hf : ∀ e, (f e).closed = e.closed) :
    isClosed c' (n.updateEnd c f) = isClosed c' n :=
  field_updateEnd End.closed hf

@[simp] theorem outgoing_markClosed : (markClosed c n).outgoing c' = n.outgoing c' :=
  outgoing_updateEnd fun _ => rfl

theorem isClosed_markClosed (h : n.IsEnd c) : isClosed c (markClosed c n) = true := by
  rw [isClosed, markClosed, pipeEnd_updateEnd_self h]

theorem isClosed_markClosed_of_ne (h : c' ≠ c) :
    isClosed c' (markClosed c n) = isClosed c' n := by
  rw [isClosed, markClosed, pipeEnd_updateEnd_of_ne h, isClosed]

/-- No mark is taken away. -/
theorem isClosed_markClosed_of_isClosed (h : isClosed c' n = true) :
    isClosed c' (markClosed c n) = true := by
  by_cases hc : c' = c
  · subst hc
    by_cases hend : n.IsEnd c'
    · exact isClosed_markClosed hend
    · rw [markClosed, updateEnd_of_not_isEnd hend, h]
  · rw [isClosed_markClosed_of_ne hc, h]

/-! The locks of an end. -/

/-- The lock of those who write to an end, or of those who read from it. -/
def lockOf (c : ChannelId) (writes : Bool) : LockPlace :=
  if writes then writeLock c else readLock c

variable {k k' : Bool} {g : Lock → Lock}

theorem lockOf_get (c : ChannelId) (k : Bool) (n : Network) :
    (lockOf c k).get n = if k then (n.pipeEnd c).writing else (n.pipeEnd c).reading := by
  cases k with
  | false => rfl
  | true => rfl

theorem lockOf_update (c : ChannelId) (k : Bool) (g : Lock → Lock) (n : Network) :
    (lockOf c k).update g n = n.updateEnd c fun e =>
      if k then { e with writing := g e.writing } else { e with reading := g e.reading } := by
  cases k with
  | false => rfl
  | true => rfl

theorem lockOf_get_update (h : n.IsEnd c) :
    (lockOf c k).get ((lockOf c k).update g n) = g ((lockOf c k).get n) := by
  rw [lockOf_get, lockOf_update, pipeEnd_updateEnd_self h, lockOf_get]
  cases k with
  | false => rfl
  | true => rfl

theorem lockOf_get_update_of_ne (h : c' ≠ c ∨ k' ≠ k) :
    (lockOf c' k').get ((lockOf c k).update g n) = (lockOf c' k').get n := by
  rw [lockOf_get, lockOf_update, lockOf_get]
  by_cases hc : c' = c
  · have hk : k' = !k := by
      rcases h with h | h
      · exact absurd hc h
      · exact Bool.eq_not.mpr h
    subst hk
    cases k with
    | false => exact field_updateEnd End.writing fun _ => rfl
    | true => exact field_updateEnd End.reading fun _ => rfl
  · rw [pipeEnd_updateEnd_of_ne hc]

theorem lockOf_get_updateEnd (hwriting : ∀ e, (f e).writing = e.writing)
    (hreading : ∀ e, (f e).reading = e.reading) :
    (lockOf c' k).get (n.updateEnd c f) = (lockOf c' k).get n := by
  rw [lockOf_get, lockOf_get]
  cases k with
  | false => exact field_updateEnd End.reading hreading
  | true => exact field_updateEnd End.writing hwriting

@[simp] theorem lockOf_get_markClosed :
    (lockOf c' k).get (markClosed c n) = (lockOf c' k).get n :=
  lockOf_get_updateEnd (fun _ => rfl) fun _ => rfl

@[simp] theorem outgoing_lockOf_update :
    ((lockOf c k).update g n).outgoing c' = n.outgoing c' := by
  rw [lockOf_update]
  apply outgoing_updateEnd
  intro e
  cases k with
  | false => rfl
  | true => rfl

@[simp] theorem isClosed_lockOf_update :
    isClosed c' ((lockOf c k).update g n) = isClosed c' n := by
  rw [lockOf_update]
  apply isClosed_updateEnd
  intro e
  cases k with
  | false => rfl
  | true => rfl

@[simp] theorem tickets_lockOf_update : ((lockOf c k).update g n).tickets = n.tickets := by
  rw [lockOf_update, tickets_updateEnd]

/-! The two ends of one pipe. -/

/-- Two channels are the ends of one pipe. -/
structure Joined (n : Network) (a b : ChannelId) : Prop where
  near : n.IsEnd a
  far : n.IsEnd b
  ne : a ≠ b
  there : (n.pipeEnd b).incoming = (n.pipeEnd a).outgoing
  back : (n.pipeEnd a).incoming = (n.pipeEnd b).outgoing
  apart : (n.pipeEnd a).outgoing ≠ (n.pipeEnd b).outgoing
  thereExists : (n.pipeEnd a).outgoing < n.pipes.size
  backExists : (n.pipeEnd b).outgoing < n.pipes.size

namespace Joined

variable {a b : ChannelId}

theorem symm (h : n.Joined a b) : n.Joined b a :=
  ⟨h.far, h.near, h.ne.symm, h.back, h.there, h.apart.symm, h.backExists, h.thereExists⟩

theorem updateEnd (h : n.Joined a b) (hin : ∀ e, (f e).incoming = e.incoming)
    (hout : ∀ e, (f e).outgoing = e.outgoing) : (n.updateEnd c f).Joined a b where
  near := h.near.updateEnd
  far := h.far.updateEnd
  ne := h.ne
  there := by
    rw [field_updateEnd End.incoming hin, field_updateEnd End.outgoing hout]
    exact h.there
  back := by
    rw [field_updateEnd End.incoming hin, field_updateEnd End.outgoing hout]
    exact h.back
  apart := by
    rw [field_updateEnd End.outgoing hout, field_updateEnd End.outgoing hout]
    exact h.apart
  thereExists := by
    rw [field_updateEnd End.outgoing hout, pipes_updateEnd]
    exact h.thereExists
  backExists := by
    rw [field_updateEnd End.outgoing hout, pipes_updateEnd]
    exact h.backExists

theorem markClosed (h : n.Joined a b) : (markClosed c n).Joined a b :=
  h.updateEnd (fun _ => rfl) fun _ => rfl

theorem lockOf_update (h : n.Joined a b) : ((lockOf c k).update g n).Joined a b := by
  rw [Network.lockOf_update]
  apply h.updateEnd
  · intro e
    cases k with
    | false => rfl
    | true => rfl
  · intro e
    cases k with
    | false => rfl
    | true => rfl

theorem setPipe (h : n.Joined a b) : (n.setPipe i p).Joined a b :=
  ⟨h.near, h.far, h.ne, h.there, h.back, h.apart,
    by rw [pipeEnd_setPipe, size_setPipe]; exact h.thereExists,
    by rw [pipeEnd_setPipe, size_setPipe]; exact h.backExists⟩

theorem tick (h : n.Joined a b) : Joined { n with tickets := n.tickets + 1 } a b :=
  ⟨h.near, h.far, h.ne, h.there, h.back, h.apart, h.thereExists, h.backExists⟩

/-- What the one end writes, the other reads. -/
theorem incoming_eq (h : n.Joined a b) : n.incoming b = n.outgoing a := by
  rw [incoming, h.there, outgoing]

theorem outgoing_setPipe (h : n.Joined a b) :
    (n.setPipe (n.pipeEnd a).outgoing p).outgoing a = p := by
  rw [outgoing, pipeEnd_setPipe, pipe_setPipe_self h.thereExists]

theorem outgoing_setPipe_far (h : n.Joined a b) :
    (n.setPipe (n.pipeEnd b).outgoing p).outgoing a = n.outgoing a := by
  rw [outgoing, pipeEnd_setPipe, pipe_setPipe_of_ne h.apart, outgoing]

theorem outgoing_setPipe_incoming (h : n.Joined a b) :
    (n.setPipe (n.pipeEnd b).incoming p).outgoing a = p := by
  rw [h.there, h.outgoing_setPipe]

theorem outgoing_setPipe_incoming_near (h : n.Joined a b) :
    (n.setPipe (n.pipeEnd a).incoming p).outgoing a = n.outgoing a := by
  rw [h.back, h.outgoing_setPipe_far]

end Joined

/-- A network to which a pipe has just been added: nothing is on its way, no one is at work on
its ends, and both are open. -/
structure Fresh (n : Network) (a b : ChannelId) : Prop where
  joined : n.Joined a b
  isOpen : isClosed a n = false
  isOpenFar : isClosed b n = false
  free : ∀ k, (lockOf a k).get n = {}
  freeFar : ∀ k, (lockOf b k).get n = {}
  empty : (n.outgoing a).buffer = .empty
  emptyFar : (n.outgoing b).buffer = .empty
  unshut : (n.outgoing a).closed = false
  unshutFar : (n.outgoing b).closed = false

theorem Fresh.symm {a b : ChannelId} (h : n.Fresh a b) : n.Fresh b a :=
  ⟨h.joined.symm, h.isOpenFar, h.isOpen, h.freeFar, h.free, h.emptyFar, h.empty, h.unshutFar,
    h.unshut⟩

/-- Two things put at the end of an array. -/
theorem getElem?_push_push {α : Type} (xs : Array α) (x y : α) :
    ((xs.push x).push y)[xs.size]? = some x ∧ ((xs.push x).push y)[xs.size + 1]? = some y := by
  constructor
  · rw [Array.getElem?_push, Array.size_push, if_neg (Nat.ne_of_lt (Nat.lt_succ_self _)),
      Array.getElem?_push_size]
  · rw [Array.getElem?_push, Array.size_push, if_pos rfl]

theorem fresh_addPipe (n : Network) (capacity : Nat) (timeout : Option Channel.Duration)
    (peerAddress : Option Channel.Address) :
    Fresh (n.addPipe capacity timeout peerAddress).2.2 (n.addPipe capacity timeout peerAddress).1
      (n.addPipe capacity timeout peerAddress).2.1 := by
  obtain ⟨m, hm⟩ : ∃ m, m = (n.addPipe capacity timeout peerAddress).2.2 := ⟨_, rfl⟩
  have hids : (n.addPipe capacity timeout peerAddress).1 = n.nodes.size ∧
      (n.addPipe capacity timeout peerAddress).2.1 = n.nodes.size + 1 := by
    simp [addPipe, add]
  have hnodes : m.nodes = (n.nodes.push (.pipe
      { incoming := n.pipes.size
        outgoing := n.pipes.size + 1
        timeout := .ofTimeout timeout
        peerAddress })).push
      (.pipe { incoming := n.pipes.size + 1, outgoing := n.pipes.size }) := by
    rw [hm]
    rfl
  have hpipes : m.pipes = (n.pipes.push { capacity }).push { capacity } := by
    rw [hm]
    rfl
  obtain ⟨hnear, hfar⟩ := getElem?_push_push n.nodes _ _
  rw [← hnodes] at hnear hfar
  have hpipe : m.pipe n.pipes.size = { capacity } ∧
      m.pipe (n.pipes.size + 1) = { capacity } := by
    obtain ⟨hthere, hback⟩ := getElem?_push_push n.pipes { capacity } { capacity }
    rw [pipe, pipe, hpipes, Array.getD_eq_getD_getElem?, Array.getD_eq_getD_getElem?, hthere, hback]
    exact ⟨rfl, rfl⟩
  have hsize : m.pipes.size = n.pipes.size + 2 := by
    rw [hpipes, Array.size_push, Array.size_push]
  rw [hids.1, hids.2, ← hm]
  constructor
  case joined =>
    constructor
    case near => exact ⟨_, hnear⟩
    case far => exact ⟨_, hfar⟩
    case ne => exact Nat.ne_of_lt (Nat.lt_succ_self _)
    all_goals simp [pipeEnd_eq hnear, pipeEnd_eq hfar, hsize]
  all_goals
    simp [isClosed, lockOf_get, outgoing, pipeEnd_eq hnear, pipeEnd_eq hfar, hpipe.1, hpipe.2]

end RemoteConsole.Network
