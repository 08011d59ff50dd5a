/-
Who stands in line at the ends of a pipe.  The locks of an end are the lines of the calls
under way on it, in the order in which they were made.
-/
import RemoteConsole.Proofs.Network.Phases

namespace RemoteConsole.Network

/-- A call under way, and where it waits. -/
abbrev Waiter := Visit × Phase

/-- Whether a call is in line for a lock. -/
def inLine (c : ChannelId) (writes : Bool) (w : Waiter) : Bool :=
  w.1.channel = c && w.2.writes = writes

/-- The tickets of the calls in line for a lock. -/
def lineOf (ws : List Waiter) (c : ChannelId) (writes : Bool) : List Nat :=
  (ws.filter (inLine c writes)).map (·.1.ticket)

/-- Where a call may wait: a write has its message left to write, or the rest of it. -/
def Phase.Fits (call : Channel.Call) : Phase → Prop
  | queuing bytes => call.message? = some bytes
  | writing _ left => ∃ message, call.message? = some message ∧ left <:+ message
  | lining count _ | reading count _ => call = .read count

/-- A call on an end of a pipe waits where it may. -/
structure Proper (a b : ChannelId) (w : Waiter) : Prop where
  here : w.1.channel = a ∨ w.1.channel = b
  sound : w.2.Sound
  fits : w.2.Fits w.1.call

theorem Phase.Fits.writes {p : Phase} {call : Channel.Call} (h : p.Fits call) :
    p.writes = call.message?.isSome := by
  cases p with
  | queuing bytes => simp [Phase.writes, show call.message? = some bytes from h]
  | writing goes left =>
      obtain ⟨message, hmessage, -⟩ := h
      simp [Phase.writes, hmessage]
  | lining count timeout =>
      cases h
      rfl
  | reading count deadline =>
      cases h
      rfl

/-- The calls under way on the ends of a pipe, as the network knows them. -/
structure Seated (n : Network) (a b : ChannelId) (ws : List Waiter) : Prop where
  joined : n.Joined a b
  proper : ∀ w ∈ ws, Proper a b w
  ordered : (ws.map (·.1.ticket)).Pairwise (· < ·)
  given : ∀ ticket ∈ ws.map (·.1.ticket), ticket < n.tickets
  lines : ∀ c, c = a ∨ c = b → ∀ k, (lockOf c k).get n = .ofLine (lineOf ws c k)

/-- A change that leaves the locks and the ends as they were. -/
structure KeepsLocks (n n' : Network) : Prop where
  locks : ∀ c k, (lockOf c k).get n' = (lockOf c k).get n
  tickets : n'.tickets = n.tickets
  joined : ∀ {a b}, n.Joined a b → n'.Joined a b

namespace KeepsLocks

variable {n : Network}

theorem refl : KeepsLocks n n :=
  ⟨fun _ _ => rfl, rfl, id⟩

theorem setPipe (i : Nat) (p : Pipe) : KeepsLocks n (n.setPipe i p) :=
  ⟨fun c k => by rw [lockOf_get, lockOf_get]; rfl, rfl, fun h => h.setPipe⟩

theorem markClosed (c : ChannelId) : KeepsLocks n (markClosed c n) :=
  ⟨fun _ _ => lockOf_get_markClosed, tickets_updateEnd, fun h => h.markClosed⟩

theorem trans {n' n'' : Network} (h : KeepsLocks n n') (h' : KeepsLocks n' n'') :
    KeepsLocks n n'' :=
  ⟨fun c k => (h'.locks c k).trans (h.locks c k), h'.tickets.trans h.tickets,
    fun hj => h'.joined (h.joined hj)⟩

end KeepsLocks

section

variable {v : Visit} {n n' : Network} {course : Course Phase} {p : Phase} {time : Nat}

theorem Visit.Begins.keepsLocks (h : v.Begins n n' course) : KeepsLocks n n' := by
  cases h with
  | refused | queues | lines | idles => exact .refl
  | sets =>
      exact ⟨fun _ _ => lockOf_get_updateEnd (fun _ => rfl) fun _ => rfl, tickets_updateEnd,
        fun h => h.updateEnd (fun _ => rfl) fun _ => rfl⟩
  | shuts => exact (KeepsLocks.markClosed v.channel).trans (.setPipe _ _)
  | marks => exact .markClosed v.channel

theorem Visit.Goes.keepsLocks (h : v.Goes time n p n' course) : KeepsLocks n n' := by
  cases h with
  | stays | turn | idles | cut | breaks | readTurn | readCut | late => exact .refl
  | fills | finishes | takes => exact .setPipe _ _
  | drained => exact .markClosed v.channel

theorem Visit.Begins.proper {a b : ChannelId} (h : v.Begins n n' (.waits p))
    (hv : v.channel = a ∨ v.channel = b) : Proper a b (v, p) := by
  cases h with
  | queues hcall => exact ⟨hv, trivial, hcall⟩
  | lines hcall hcount => exact ⟨hv, hcount, hcall⟩

theorem Visit.Goes.proper {a b : ChannelId} {p' : Phase} (h : v.Goes time n p n' (.waits p'))
    (hv : Proper a b (v, p)) : Proper a b (v, p') ∧ p'.writes = p.writes := by
  cases h with
  | stays => exact ⟨hv, rfl⟩
  | turn hbytes =>
      exact ⟨⟨hv.here, ⟨hbytes, Nat.le_refl _⟩, _, hv.fits, List.suffix_rfl⟩, rfl⟩
  | fills hleft hgoes =>
      obtain ⟨message, hmessage, hrest⟩ := hv.fits
      refine ⟨⟨hv.here, ⟨hleft, hgoes⟩, message, hmessage, ?_⟩, rfl⟩
      exact (List.drop_suffix _ _).trans hrest
  | readTurn => exact ⟨⟨hv.here, hv.sound, hv.fits⟩, rfl⟩

end

section

variable {n n' : Network} {a b : ChannelId} {ws before after : List Waiter} {v : Visit}
  {p : Phase}

@[simp] theorem lineOf_append (ws ws' : List Waiter) (c : ChannelId) (k : Bool) :
    lineOf (ws ++ ws') c k = lineOf ws c k ++ lineOf ws' c k := by
  simp [lineOf]

theorem lineOf_cons (w : Waiter) (ws : List Waiter) (c : ChannelId) (k : Bool) :
    lineOf (w :: ws) c k =
      if inLine c k w then w.1.ticket :: lineOf ws c k else lineOf ws c k := by
  unfold lineOf
  split
  next h => rw [List.filter_cons_of_pos h, List.map_cons]
  next h => rw [List.filter_cons_of_neg h]

theorem lineOf_subset (ws : List Waiter) (c : ChannelId) (k : Bool) :
    lineOf ws c k ⊆ ws.map (·.1.ticket) :=
  (List.filter_sublist.map _).subset

theorem inLine_iff {c : ChannelId} {k : Bool} {w : Waiter} :
    inLine c k w = true ↔ c = w.1.channel ∧ k = w.2.writes := by
  rw [inLine, Bool.and_eq_true, decide_eq_true_eq, decide_eq_true_eq]
  exact ⟨fun h => ⟨h.1.symm, h.2.symm⟩, fun h => ⟨h.1.symm, h.2.symm⟩⟩

/-- A change of one lock is a change for one line. -/
theorem lockOf_get_update_inLine {c : ChannelId} {k : Bool} {g : Lock → Lock}
    (hend : n.IsEnd v.channel) :
    (lockOf c k).get ((lockOf v.channel p.writes).update g n) =
      if inLine c k (v, p) then g ((lockOf c k).get n) else (lockOf c k).get n := by
  split
  next h =>
    obtain ⟨rfl, rfl⟩ := inLine_iff.mp h
    exact lockOf_get_update hend
  next h =>
    apply lockOf_get_update_of_ne
    by_contra hboth
    exact h (inLine_iff.mpr (by simpa [not_or] using hboth))

namespace Seated

theorem isEnd (h : Seated n a b ws) {c : ChannelId} (hc : c = a ∨ c = b) : n.IsEnd c := by
  rcases hc with rfl | rfl
  · exact h.joined.near
  · exact h.joined.far

/-- Nothing happens to locks and ends. -/
theorem keep (h : Seated n a b ws) (hn : KeepsLocks n n') : Seated n' a b ws where
  joined := hn.joined h.joined
  proper := h.proper
  ordered := h.ordered
  given := by
    rw [hn.tickets]
    exact h.given
  lines c hc k := by rw [hn.locks, h.lines c hc]

/-- A call goes to the end of a line. -/
theorem arrive (h : Seated n a b ws) (hv : Proper a b (v, p)) (hticket : v.ticket = n.tickets) :
    Seated ((Course.waits p).arrive v n) a b (ws ++ [(v, p)]) where
  joined := h.joined.tick.lockOf_update
  proper := List.forall_mem_append.mpr ⟨h.proper, List.forall_mem_singleton.mpr hv⟩
  ordered := by
    rw [List.map_append]
    apply List.pairwise_append.mpr
    refine ⟨h.ordered, List.pairwise_singleton _ _, fun t ht => ?_⟩
    exact List.forall_mem_singleton.mpr (Nat.lt_of_lt_of_eq (h.given t ht) hticket.symm)
  given := by
    rw [Course.arrive, tickets_lockOf_update, List.map_append]
    exact List.forall_mem_append.mpr ⟨fun t ht => Nat.lt_succ_of_lt (h.given t ht),
      List.forall_mem_singleton.mpr (hticket ▸ Nat.lt_succ_self _)⟩
  lines c hc k := by
    have hend : IsEnd { n with tickets := n.tickets + 1 } v.channel := h.isEnd hv.here
    have hsame : (lockOf c k).get { n with tickets := n.tickets + 1 } = (lockOf c k).get n := by
      rw [lockOf_get, lockOf_get]
      rfl
    rw [Course.arrive, lockOf_get_update_inLine hend, hsame, h.lines c hc, lineOf_append,
      lineOf_cons]
    split
    next => exact Lock.ask_ofLine _ _
    next => exact congrArg Lock.ofLine (List.append_nil _).symm

/-- The calls before and after one in a line have other tickets. -/
theorem others (h : Seated n a b (before ++ (v, p) :: after)) (c : ChannelId) (k : Bool) :
    v.ticket ∉ lineOf before c k ∧ v.ticket ∉ lineOf after c k := by
  have hordered := h.ordered
  rw [List.map_append, List.map_cons] at hordered
  obtain ⟨_, hafter, hbefore⟩ := List.pairwise_append.mp hordered
  constructor
  · intro hmem
    exact Nat.lt_irrefl _ (hbefore _ (lineOf_subset _ _ _ hmem) _ List.mem_cons_self)
  · intro hmem
    exact Nat.lt_irrefl _ ((List.pairwise_cons.mp hafter).1 _ (lineOf_subset _ _ _ hmem))

/-- A call waits somewhere else, in the same line. -/
theorem move {p' : Phase} (h : Seated n a b (before ++ (v, p) :: after))
    (hv : Proper a b (v, p')) (hwrites : p'.writes = p.writes) :
    Seated n a b (before ++ (v, p') :: after) where
  joined := h.joined
  proper := by
    have hproper := h.proper
    rw [List.forall_mem_append, List.forall_mem_cons] at hproper ⊢
    exact ⟨hproper.1, hv, hproper.2.2⟩
  ordered := by
    have := h.ordered
    rwa [List.map_append, List.map_cons] at this ⊢
  given := by
    have := h.given
    rwa [List.map_append, List.map_cons] at this ⊢
  lines c hc k := by
    rw [h.lines c hc, lineOf_append, lineOf_append, lineOf_cons, lineOf_cons, inLine, inLine,
      hwrites]

/-- A call leaves the line that it is in. -/
theorem depart (h : Seated n a b (before ++ (v, p) :: after)) (answer : Answer) :
    Seated ((Course.returned answer).depart v p n) a b (before ++ after) := by
  have hfewer : (before ++ after).Sublist (before ++ (v, p) :: after) :=
    (List.sublist_cons_self (v, p) after).append_left before
  constructor
  case joined => exact h.joined.lockOf_update
  case proper => exact fun w hw => h.proper w (hfewer.subset hw)
  case ordered => exact h.ordered.sublist (hfewer.map _)
  case given =>
    rw [Course.depart, LockPlace.leave, tickets_lockOf_update]
    exact fun t ht => h.given t ((hfewer.map _).subset ht)
  case lines =>
    intro c hc k
    have hend : n.IsEnd v.channel := h.isEnd (h.proper (v, p) (by simp)).here
    obtain ⟨hbefore, hafter⟩ := h.others c k
    rw [Course.depart, LockPlace.leave, lockOf_get_update_inLine hend, h.lines c hc,
      lineOf_append, lineOf_append, lineOf_cons]
    split
    next => exact Lock.leave_ofLine hbefore hafter
    next => rfl

/-- Whoever is first in line has the turn. -/
theorem hasTurn_iff (h : Seated n a b ws) (hv : v.channel = a ∨ v.channel = b) :
    v.hasTurn n = true ↔ (lineOf ws v.channel true).head? = some v.ticket := by
  change ((lockOf v.channel true).get n).isHeldBy v.ticket = true ↔ _
  rw [h.lines v.channel hv true, Lock.isHeldBy_ofLine]

/-- No call but the first in line has the turn. -/
theorem filter_hasTurn (h : Seated n a b ws) {c : ChannelId} (hc : c = a ∨ c = b) :
    (ws.map Prod.fst).filter (fun v => v.channel = c && v.hasTurn n) =
      ((ws.filter (inLine c true)).take 1).map Prod.fst := by
  have hturn (v : Visit) :
      (decide (v.channel = c) && v.hasTurn n) = true ↔
        v.channel = c ∧ (lineOf ws c true).head? = some v.ticket := by
    rw [Bool.and_eq_true, decide_eq_true_eq]
    refine and_congr_right fun hv => ?_
    rw [h.hasTurn_iff (hv ▸ hc), hv]
  cases hline : ws.filter (inLine c true) with
  | nil =>
      rw [List.take_nil, List.map_nil, List.filter_eq_nil_iff]
      intro v _ hv
      have := ((hturn v).mp hv).2
      simp [lineOf, hline] at this
  | cons w rest =>
      have hw : w ∈ ws.filter (inLine c true) := by simp [hline]
      obtain ⟨hmem, hin⟩ := List.mem_filter.mp hw
      have hfirst (v : Visit) : (decide (v.channel = c) && v.hasTurn n) = true ↔
          v.channel = c ∧ w.1.ticket = v.ticket := by
        rw [hturn]
        simp [lineOf, hline]
      obtain ⟨before, after, hsplit⟩ := List.append_of_mem hmem
      have hordered := h.ordered
      rw [hsplit, List.map_append, List.map_cons] at hordered
      obtain ⟨_, hafter, hbefore⟩ := List.pairwise_append.mp hordered
      -- Tickets tell calls apart.
      have hnot (ws' : List Waiter) (hws' : ∀ x ∈ ws', x.1.ticket ≠ w.1.ticket) :
          (ws'.map Prod.fst).filter (fun v => v.channel = c && v.hasTurn n) = [] := by
        rw [List.filter_eq_nil_iff]
        intro v hv hfirst'
        obtain ⟨x, hx, rfl⟩ := List.mem_map.mp hv
        exact hws' x hx ((hfirst _).mp hfirst').2.symm
      rw [List.take_succ_cons, List.take_zero, List.map_singleton, hsplit, List.map_append,
        List.map_cons, List.filter_append, List.filter_cons_of_pos, hnot before, hnot after,
        List.nil_append]
      · intro x hx
        have := (List.pairwise_cons.mp hafter).1 _ (List.mem_map_of_mem hx)
        omega
      · intro x hx
        have := hbefore _ (List.mem_map_of_mem hx) _ List.mem_cons_self
        omega
      · exact (hfirst w.1).mpr ⟨(inLine_iff.mp hin).1.symm, rfl⟩

end Seated

end

end RemoteConsole.Network
