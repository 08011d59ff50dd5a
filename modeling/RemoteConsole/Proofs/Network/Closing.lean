/-
What is closed with a channel.  Channels rest on each other in layers, and may share what lies
below them; to close one closes the transports under it that it owns, through every layer, and
nothing else.
-/
import Mathlib.Logic.Relation
import RemoteConsole.Proofs.Network.Frame
import RemoteConsole.Proofs.Routine.Along

namespace RemoteConsole.Network

/-! The layers of a network. -/

/-- What a channel is made of, whatever state it is in. -/
inductive Shape where
  | pipe
  | scripted
  | pair (reader writer : ChannelId) (owns : Channel.Ownership)
  | telnet (below : ChannelId)
deriving DecidableEq, Repr

/-- The channels that a channel rests on. -/
def Shape.below : Shape → List ChannelId
  | .pair reader writer _ => [reader, writer]
  | .telnet below => [below]
  | .pipe | .scripted => []

/-- The channels that are closed with a channel: what Telnet lies over, and each half of a pair
that the pair owns. -/
def Shape.owned : Shape → List ChannelId
  | .pair reader writer owns =>
      (if owns.reader then [reader] else []) ++ if owns.writer then [writer] else []
  | .telnet below => [below]
  | .pipe | .scripted => []

theorem Shape.mem_owned_pair {reader writer d : ChannelId} {owns : Channel.Ownership} :
    d ∈ (Shape.pair reader writer owns).owned ↔
      owns.reader = true ∧ d = reader ∨ owns.writer = true ∧ d = writer := by
  simp [owned]

def Shape.hasMark : Shape → Bool
  | .pipe | .scripted | .pair _ _ _ => true
  | .telnet _ => false

def Node.shape : Node → Shape
  | .pipe _ => .pipe
  | .scripted _ => .scripted
  | .pair reader writer owns _ => .pair reader writer owns
  | .telnet below _ _ => .telnet below

/-- Whether a channel has been marked closed. -/
def Node.isMarked : Node → Bool
  | .pipe e => e.closed
  | .scripted s => !s.isOpen
  | .pair _ _ _ closed => closed
  | .telnet _ _ _ => false

/-- The channels of a network, in whatever state. -/
def layout (n : Network) : Array Shape :=
  n.nodes.map Node.shape

/-- One channel is closed with another. -/
def Owns (l : Array Shape) (c b : ChannelId) : Prop :=
  ∃ s, l[c]? = some s ∧ b ∈ s.owned

/-- A channel and what it owns, through every layer. -/
abbrev Reaches (l : Array Shape) : ChannelId → ChannelId → Prop :=
  Relation.ReflTransGen (Owns l)

/-- A channel that can be marked closed: a transport or a pair.  Telnet has no mark of its
own. -/
def HasMark (l : Array Shape) (c : ChannelId) : Prop :=
  ∃ s, l[c]? = some s ∧ s.hasMark = true

/-- Every channel rests on channels that were there before it. -/
def Ordered (l : Array Shape) : Prop :=
  ∀ (c : ChannelId) (h : c < l.size), ∀ b ∈ l[c].below, b < c

instance (l : Array Shape) : Decidable (Ordered l) :=
  inferInstanceAs (Decidable (∀ (c : Nat) (h : c < l.size), ∀ b ∈ l[c].below, b < c))

/-- Whether the mark of a channel is set. -/
def isMarked (n : Network) (c : ChannelId) : Bool :=
  n.nodes[c]?.any Node.isMarked

variable {n n' : Network} {c b : ChannelId} {S T : ChannelId → Prop}

theorem layout_get : (layout n)[c]? = n.nodes[c]?.map Node.shape := by
  simp [layout]

theorem layout_eq {node : Node} (h : n.nodes[c]? = some node) :
    (layout n)[c]? = some node.shape := by
  rw [layout_get, h]
  rfl

theorem isMarked_eq {node : Node} (h : n.nodes[c]? = some node) :
    n.isMarked c = node.isMarked := by
  simp [isMarked, h]

theorem hasMark_of_isMarked (h : n.isMarked c = true) : HasMark (layout n) c := by
  cases hc : n.nodes[c]? with
  | none => simp [isMarked, hc] at h
  | some node =>
      rw [isMarked_eq hc] at h
      refine ⟨node.shape, layout_eq hc, ?_⟩
      cases node with
      | telnet => cases h
      | pipe | scripted | pair => rfl

theorem HasMark.ne_of_telnet {l : Array Shape} {below : ChannelId} (hb : HasMark l b)
    (hc : l[c]? = some (.telnet below)) : b ≠ c := by
  rintro rfl
  obtain ⟨s, hs, hmark⟩ := hb
  cases hc.symm.trans hs
  cases hmark

theorem Ordered.lt_of_mem_below {l : Array Shape} (hl : Ordered l) {s : Shape}
    (hc : l[c]? = some s) (hb : b ∈ s.below) : b < c := by
  obtain ⟨hlt, rfl⟩ := Array.getElem?_eq_some_iff.mp hc
  exact hl c hlt b hb

/-- From what a channel rests on to the channel. -/
theorem Ordered.induction {l : Array Shape} (hl : Ordered l) {P : ChannelId → Prop}
    (pipe : ∀ c, l[c]? = some .pipe → P c) (scripted : ∀ c, l[c]? = some .scripted → P c)
    (pair : ∀ c reader writer owns, l[c]? = some (.pair reader writer owns) →
      P reader → P writer → P c)
    (telnet : ∀ c below, l[c]? = some (.telnet below) → P below → P c)
    (none : ∀ c, l[c]? = none → P c) (c : ChannelId) : P c := by
  induction c using Nat.strongRecOn with
  | ind c ih =>
      cases hc : l[c]? with
      | none => exact none c hc
      | some s =>
          have hbelow : ∀ b ∈ s.below, P b := fun b hb => ih b (hl.lt_of_mem_below hc hb)
          cases s with
          | pipe => exact pipe c hc
          | scripted => exact scripted c hc
          | pair reader writer owns =>
              exact pair c reader writer owns hc (hbelow reader (by simp [Shape.below]))
                (hbelow writer (by simp [Shape.below]))
          | telnet below => exact telnet c below hc (hbelow below (by simp [Shape.below]))

/-! Channels by layout. -/

theorem exists_node {s : Shape} (h : (layout n)[c]? = some s) :
    ∃ node, n.nodes[c]? = some node ∧ node.shape = s := by
  rwa [layout_get, Option.map_eq_some_iff] at h

theorem exists_pipe (h : (layout n)[c]? = some .pipe) : ∃ e, n.nodes[c]? = some (.pipe e) := by
  obtain ⟨node, hnode, hshape⟩ := exists_node h
  cases node <;> cases hshape
  exact ⟨_, hnode⟩

theorem exists_scripted (h : (layout n)[c]? = some .scripted) :
    ∃ s, n.nodes[c]? = some (.scripted s) := by
  obtain ⟨node, hnode, hshape⟩ := exists_node h
  cases node <;> cases hshape
  exact ⟨_, hnode⟩

theorem exists_pair {reader writer : ChannelId} {owns : Channel.Ownership}
    (h : (layout n)[c]? = some (.pair reader writer owns)) :
    ∃ closed, n.nodes[c]? = some (.pair reader writer owns closed) := by
  obtain ⟨node, hnode, hshape⟩ := exists_node h
  cases node <;> cases hshape
  exact ⟨_, hnode⟩

theorem exists_telnet {below : ChannelId} (h : (layout n)[c]? = some (.telnet below)) :
    ∃ link reading, n.nodes[c]? = some (.telnet below link reading) := by
  obtain ⟨node, hnode, hshape⟩ := exists_node h
  cases node <;> cases hshape
  exact ⟨_, _, hnode⟩

section

variable {J : Type}

theorem channelAt_scripted (h : (layout n)[c]? = some .scripted) :
    (channelAt n.nodes c : Channel (Work J)) = scriptChannel c := by
  obtain ⟨s, hs⟩ := exists_scripted h
  rw [channelAt, hs]

theorem channelAt_pair (hn : Ordered (layout n)) {reader writer : ChannelId}
    {owns : Channel.Ownership} (h : (layout n)[c]? = some (.pair reader writer owns)) :
    (channelAt n.nodes c : Channel (Work J)) =
      Channel.pair (pairHold c) owns (channelAt n.nodes reader) (channelAt n.nodes writer) := by
  obtain ⟨closed, hc⟩ := exists_pair h
  rw [channelAt, hc]
  exact dif_pos ⟨hn.lt_of_mem_below h (by simp [Shape.below]),
    hn.lt_of_mem_below h (by simp [Shape.below])⟩

theorem channelAt_telnet (hn : Ordered (layout n)) {below : ChannelId}
    (h : (layout n)[c]? = some (.telnet below)) :
    (channelAt n.nodes c : Channel (Work J)) =
      (linkHold c).channel (channelAt n.nodes below) := by
  obtain ⟨link, reading, hc⟩ := exists_telnet h
  rw [channelAt, hc]
  exact dif_pos (hn.lt_of_mem_below h (by simp [Shape.below]))

theorem channelAt_none (h : (layout n)[c]? = none) :
    (channelAt n.nodes c : Channel (Work J)) = noChannel := by
  rw [layout_get, Option.map_eq_none_iff] at h
  rw [channelAt, h]

/-- A channel is made of the channels below it; their states make no difference. -/
theorem channelAt_congr (hn : Ordered (layout n)) (h : layout n' = layout n) (c : ChannelId) :
    (channelAt n'.nodes c : Channel (Work J)) = channelAt n.nodes c := by
  have hn' : Ordered (layout n') := h.symm ▸ hn
  induction c using hn.induction with
  | pipe c hc =>
      obtain ⟨e, he⟩ := exists_pipe hc
      obtain ⟨e', he'⟩ := exists_pipe (h.symm ▸ hc)
      rw [channelAt_pipe he, channelAt_pipe he']
  | scripted c hc => rw [channelAt_scripted hc, channelAt_scripted (h.symm ▸ hc)]
  | pair c reader writer owns hc hreader hwriter =>
      rw [channelAt_pair hn hc, channelAt_pair hn' (h.symm ▸ hc), hreader, hwriter]
  | telnet c below hc hbelow =>
      rw [channelAt_telnet hn hc, channelAt_telnet hn' (h.symm ▸ hc), hbelow]
  | none c hc => rw [channelAt_none hc, channelAt_none (h.symm ▸ hc)]

end

/-! What closing marks. -/

/-- Of the channels that have a mark, those that satisfy `S` have been marked, and no others. -/
structure Marks (S : ChannelId → Prop) (n n' : Network) : Prop where
  layout_eq : layout n' = layout n
  isMarked_iff : ∀ b, HasMark (layout n) b → (n'.isMarked b = true ↔ n.isMarked b = true ∨ S b)

/-- Whatever a marked channel owns is marked too. -/
def Sound (n : Network) (c : ChannelId) : Prop :=
  n.isMarked c = true →
    ∀ b, Reaches (layout n) c b → HasMark (layout n) b → n.isMarked b = true

/-- To close a channel leads at once from one state to another. -/
def ClosesTo (c : ChannelId) (n n' : Network) : Prop :=
  ∀ time, ((channel c).close : Work Empty (Except Channel.Error Unit)).advance time n =
    (n', [], .done (.ok ()))

theorem Marks.trans {n'' : Network} (h : Marks S n n') (h' : Marks T n' n'') :
    Marks (fun b => S b ∨ T b) n n'' where
  layout_eq := h'.layout_eq.trans h.layout_eq
  isMarked_iff b hb := by
    rw [h'.isMarked_iff b (h.layout_eq.symm ▸ hb), h.isMarked_iff b hb, or_assoc]

theorem Marks.congr (h : Marks S n n') (hS : ∀ b, HasMark (layout n) b → (S b ↔ T b)) :
    Marks T n n' where
  layout_eq := h.layout_eq
  isMarked_iff b hb := by rw [h.isMarked_iff b hb, hS b hb]

theorem Marks.refl (h : ∀ b, HasMark (layout n) b → S b → n.isMarked b = true) : Marks S n n where
  layout_eq := rfl
  isMarked_iff b hb := ⟨Or.inl, fun hor => hor.elim id (h b hb)⟩

/-- A channel stays sound if what it owns is marked as soon as it is marked itself. -/
theorem Marks.sound (h : Marks S n n') (hS : ∀ b, S c → Reaches (layout n) c b → S b)
    (hc : n.Sound c) : n'.Sound c := by
  intro hmarked b hreaches hb
  have hcmark := hasMark_of_isMarked hmarked
  rw [h.layout_eq] at hcmark hreaches hb
  rw [h.isMarked_iff b hb]
  rcases (h.isMarked_iff c hcmark).mp hmarked with hbefore | hnow
  · exact Or.inl (hc hbefore b hreaches hb)
  · exact Or.inr (hS b hnow hreaches)

theorem reaches_iff {l : Array Shape} {s : Shape} (h : l[c]? = some s) :
    Reaches l c b ↔ b = c ∨ ∃ d ∈ s.owned, Reaches l d b := by
  refine Relation.ReflTransGen.cases_head_iff.trans ?_
  simp [Owns, h, eq_comm]

theorem reaches_none {l : Array Shape} (h : l[c]? = none) : Reaches l c b ↔ b = c := by
  refine Relation.ReflTransGen.cases_head_iff.trans ?_
  simp [Owns, h, eq_comm]

theorem getElem?_setNode {node node' : Node} (h : n.nodes[c]? = some node) (b : ChannelId) :
    (n.setNode c node').nodes[b]? = if b = c then some node' else n.nodes[b]? := by
  obtain ⟨hlt, -⟩ := Array.getElem?_eq_some_iff.mp h
  by_cases hb : b = c
  · simp [setNode, hb, hlt]
  · simp [setNode, hb, Ne.symm hb]

theorem marks_setNode {node node' : Node} (h : n.nodes[c]? = some node)
    (hshape : node'.shape = node.shape) (hmarked : node'.isMarked = true) :
    Marks (· = c) n (n.setNode c node') where
  layout_eq := by
    apply Array.ext_getElem?
    intro b
    rw [layout_get, layout_get, getElem?_setNode h]
    split
    next hb => rw [hb, h, Option.map_some, hshape, Option.map_some]
    next => rfl
  isMarked_iff b _ := by
    rw [isMarked, getElem?_setNode h]
    by_cases hb : b = c
    · simp [hb, hmarked]
    · simp [hb, isMarked]

/-! Closing. -/

theorem closesTo_iff {half : Channel (Work Empty)} (h : channelAt n.nodes c = half) :
    ClosesTo c n n' ↔ ∀ time, half.close.advance time n = (n', [], .done (.ok ())) := by
  subst h
  rfl

theorem advance_isOpen {half : Channel (Work Empty)} (h : channelAt n.nodes c = half)
    (time : Nat) :
    ((channel c).isOpen : Work Empty Bool).advance time n = half.isOpen.advance time n := by
  subst h
  rfl

/-- To close a half of a pair, if the pair owns it. -/
def HalfClosesTo (owned : Bool) (c : ChannelId) (n n' : Network) : Prop :=
  if owned = true then ClosesTo c n n' else n' = n

/-- Once an owned half has been closed, what comes after it goes on. -/
theorem HalfClosesTo.advance {owned : Bool} (h : HalfClosesTo owned c n n')
    {half : Channel (Work Empty)} (hhalf : channelAt n.nodes c = half) (time : Nat)
    (rest : Work Empty (Except Channel.Error Unit)) :
    (do
      if owned then
        if let .error e ← half.close then return .error e
      rest : Work Empty (Except Channel.Error Unit)).advance time n = rest.advance time n' := by
  subst hhalf
  cases owned with
  | false =>
      obtain rfl : n' = n := h
      rfl
  | true =>
      have hclose := h time
      exact (Routine.advance_bind hclose).trans rfl

theorem closesTo_pair (hn : Ordered (layout n)) {reader writer : ChannelId}
    {owns : Channel.Ownership} (h : (layout n)[c]? = some (.pair reader writer owns))
    (hopen : isPairClosed c n = false) {n₁ n₂ : Network}
    (hlayout : layout (markPairClosed c n) = layout n) (hlayout₁ : layout n₁ = layout n)
    (hreader : HalfClosesTo owns.reader reader (markPairClosed c n) n₁)
    (hwriter : HalfClosesTo owns.writer writer n₁ n₂) : ClosesTo c n n₂ := by
  intro time
  have hmark : (channelAt n.nodes c : Channel (Work Empty)).close.advance time n =
      (do
        if owns.reader then
          if let .error e ← (channelAt n.nodes reader).close then return .error e
        if owns.writer then
          if let .error e ← (channelAt n.nodes writer).close then return .error e
        return .ok () : Work Empty (Except Channel.Error Unit)).advance time
          (markPairClosed c n) := by
    rw [channelAt_pair hn h]
    change Routine.advance time (if isPairClosed c n = true then _ else _) n = _
    rw [hopen]
    rfl
  change (channelAt n.nodes c).close.advance time n = _
  rw [hmark, hreader.advance (channelAt_congr hn hlayout reader),
    hwriter.advance (channelAt_congr hn hlayout₁ writer)]
  rfl

theorem closesTo_closed_pair (hn : Ordered (layout n)) {reader writer : ChannelId}
    {owns : Channel.Ownership} (h : (layout n)[c]? = some (.pair reader writer owns))
    (hclosed : isPairClosed c n = true) : ClosesTo c n n := by
  rw [closesTo_iff (channelAt_pair hn h)]
  intro time
  change Routine.advance time (if isPairClosed c n = true then _ else _) n = _
  rw [hclosed]
  rfl

theorem closesTo_closed_pipe {e : End} (h : n.nodes[c]? = some (.pipe e))
    (hclosed : isClosed c n = true) : ClosesTo c n n := by
  rw [closesTo_iff (channelAt_pipe h)]
  intro time
  change Routine.advance time (Routine.modifyGet _) n = _
  simp [Routine.modifyGet, Routine.advance, hclosed]

/-- Whether the pipe to the far end is shut or not, of the channels only this one is marked. -/
theorem exists_closesTo_pipe {e : End} (h : n.nodes[c]? = some (.pipe e))
    (hopen : isClosed c n = false) :
    ∃ n', ClosesTo c n n' ∧ n'.nodes = (markClosed c n).nodes := by
  have hclose : ∀ n', ClosesTo c n n' ↔
      ∀ time, Routine.advance time (closeEnd c) n = (n', [], .done (.ok ())) := fun n' =>
    closesTo_iff (channelAt_pipe h)
  cases hfree : ((markClosed c n).pipeEnd c).writing.isFree with
  | true =>
      refine ⟨(markClosed c n).setPipe ((markClosed c n).pipeEnd c).outgoing
        ((markClosed c n).outgoing c).close, (hclose _).mpr fun time => ?_, rfl⟩
      simp only [closeEnd, Routine.modifyGet, Routine.advance, hopen, hfree, if_true,
        Bool.false_eq_true, if_false]
  | false =>
      refine ⟨markClosed c n, (hclose _).mpr fun time => ?_, rfl⟩
      simp only [closeEnd, Routine.modifyGet, Routine.advance, hopen, hfree,
        Bool.false_eq_true, if_false]

theorem closesTo_scripted {s : Channel.Scripted} (h : n.nodes[c]? = some (.scripted s)) :
    ClosesTo c n (n.setNode c (.scripted s.close)) := by
  have hscript : script c n = s := by simp [script, h]
  have hset : setScript c (script c n).close n = n.setNode c (.scripted s.close) := by
    rw [hscript, setScript, h]
  rw [closesTo_iff (channelAt_scripted (layout_eq h)), ← hset]
  exact fun time => rfl

theorem closesTo_telnet_iff (hn : Ordered (layout n)) {below : ChannelId}
    (h : (layout n)[c]? = some (.telnet below)) : ClosesTo c n n' ↔ ClosesTo below n n' := by
  rw [closesTo_iff (channelAt_telnet hn h)]
  rfl

theorem closesTo_none (h : (layout n)[c]? = none) : ClosesTo c n n :=
  (closesTo_iff (channelAt_none h)).mpr fun _ => rfl

theorem Marks.of_nodes_eq {n'' : Network} (h : Marks S n n') (hnodes : n''.nodes = n'.nodes) :
    Marks S n n'' where
  layout_eq := by rw [layout, hnodes, ← layout, h.layout_eq]
  isMarked_iff b hb := by rw [isMarked, hnodes, ← isMarked, h.isMarked_iff b hb]

/-- A half that the pair owns is closed with what it owns, and one that it does not own is
left alone. -/
theorem exists_halfClosesTo (owned : Bool)
    (h : ∃ n', ClosesTo c n n' ∧ Marks (Reaches (layout n) c) n n') :
    ∃ n', HalfClosesTo owned c n n' ∧
      Marks (fun b => owned = true ∧ Reaches (layout n) c b) n n' := by
  cases owned with
  | false => exact ⟨n, rfl, .refl fun _ _ hfalse => nomatch hfalse.1⟩
  | true =>
      obtain ⟨n', hclose, hmarks⟩ := h
      exact ⟨n', hclose, hmarks.congr fun b _ => (and_iff_right rfl).symm⟩

/-- To close a pair that is open marks it first, and then what its halves own. -/
theorem exists_closesTo_pair {l : Array Shape} (hl : Ordered l) {reader writer : ChannelId}
    {owns : Channel.Ownership} (h : l[c]? = some (.pair reader writer owns))
    (hreader : ∀ n, layout n = l → (∀ p ≤ reader, n.Sound p) →
      ∃ n', ClosesTo reader n n' ∧ Marks (Reaches l reader) n n')
    (hwriter : ∀ n, layout n = l → (∀ p ≤ writer, n.Sound p) →
      ∃ n', ClosesTo writer n n' ∧ Marks (Reaches l writer) n n')
    (hn : layout n = l) (hsound : ∀ p ≤ c, n.Sound p) (hopen : isPairClosed c n = false) :
    ∃ n', ClosesTo c n n' ∧ Marks (Reaches l c) n n' := by
  subst hn
  obtain ⟨closed, hc⟩ := exists_pair h
  have hreaderLt : reader < c := hl.lt_of_mem_below h (by simp [Shape.below])
  have hwriterLt : writer < c := hl.lt_of_mem_below h (by simp [Shape.below])
  let n₁ := markPairClosed c n
  have hmark : Marks (· = c) n n₁ := by
    have hset : n₁ = n.setNode c (.pair reader writer owns true) := by simp [n₁, markPairClosed, hc]
    rw [hset]
    exact marks_setNode hc rfl rfl
  -- The pair itself is not sound while its halves are open, but what lies below it is.
  have hsound₁ : ∀ p < c, n₁.Sound p := fun p hp =>
    hmark.sound (fun _ heq _ => absurd heq (Nat.ne_of_lt hp)) (hsound p (Nat.le_of_lt hp))
  obtain ⟨n₂, hread, hmarks₂⟩ := exists_halfClosesTo owns.reader
    (hmark.layout_eq.symm ▸ hreader n₁ hmark.layout_eq fun p hp =>
      hsound₁ p (Nat.lt_of_le_of_lt hp hreaderLt))
  have hsound₂ : ∀ p < c, n₂.Sound p := fun p hp =>
    hmarks₂.sound (fun _ hnow hreaches => ⟨hnow.1, hnow.2.trans hreaches⟩) (hsound₁ p hp)
  have hlayout₂ : layout n₂ = layout n := hmarks₂.layout_eq.trans hmark.layout_eq
  obtain ⟨n₃, hwrite, hmarks₃⟩ := exists_halfClosesTo owns.writer
    (hlayout₂.symm ▸ hwriter n₂ hlayout₂ fun p hp =>
      hsound₂ p (Nat.lt_of_le_of_lt hp hwriterLt))
  refine ⟨n₃, closesTo_pair hl h hopen hmark.layout_eq hlayout₂ hread hwrite, ?_⟩
  refine ((hmark.trans hmarks₂).trans hmarks₃).congr fun b _ => ?_
  rw [reaches_iff h, hmark.layout_eq, hlayout₂]
  simp only [Shape.mem_owned_pair, or_and_right, exists_or, and_assoc, exists_and_left,
    exists_eq_left, or_assoc]

/-- To close a channel ends at once, and marks what it owns, through every layer, and
nothing else. -/
theorem exists_closesTo {l : Array Shape} (hl : Ordered l) (c : ChannelId) :
    ∀ n, layout n = l → (∀ p ≤ c, n.Sound p) →
      ∃ n', ClosesTo c n n' ∧ Marks (Reaches l c) n n' := by
  induction c using hl.induction with
  | pipe c hc =>
      rintro n rfl -
      obtain ⟨e, he⟩ := exists_pipe hc
      have hreaches : ∀ b, Reaches (layout n) c b ↔ b = c := fun b => by
        simp [reaches_iff hc, Shape.owned]
      cases hclosed : isClosed c n with
      | true =>
          refine ⟨n, closesTo_closed_pipe he hclosed, .refl fun b _ hb => ?_⟩
          rw [(hreaches b).mp hb, isMarked_eq he]
          rwa [isClosed, pipeEnd_eq he] at hclosed
      | false =>
          obtain ⟨n', hclose, hnodes⟩ := exists_closesTo_pipe he hclosed
          have hmark : Marks (· = c) n (markClosed c n) := by
            rw [markClosed, updateEnd_eq he]
            exact marks_setNode he rfl rfl
          exact ⟨n', hclose, (hmark.of_nodes_eq hnodes).congr fun b _ => (hreaches b).symm⟩
  | scripted c hc =>
      rintro n rfl -
      obtain ⟨s, hs⟩ := exists_scripted hc
      have hmark : Marks (· = c) n (n.setNode c (.scripted s.close)) :=
        marks_setNode hs rfl rfl
      refine ⟨_, closesTo_scripted hs, hmark.congr fun b _ => ?_⟩
      simp [reaches_iff hc, Shape.owned]
  | pair c reader writer owns hc hreader hwriter =>
      intro n hn hsound
      cases hclosed : isPairClosed c n with
      | false => exact exists_closesTo_pair hl hc hreader hwriter hn hsound hclosed
      | true =>
          subst hn
          obtain ⟨closed, hnode⟩ := exists_pair hc
          have hmarked : n.isMarked c = true := by
            rw [isMarked_eq hnode]
            rwa [isPairClosed, hnode] at hclosed
          refine ⟨n, closesTo_closed_pair hl hc hclosed, .refl fun b hb hreaches => ?_⟩
          exact hsound c (Nat.le_refl c) hmarked b hreaches hb
  | telnet c below hc hbelow =>
      rintro n rfl hsound
      have hlt : below < c := hl.lt_of_mem_below hc (by simp [Shape.below])
      obtain ⟨n', hclose, hmarks⟩ := hbelow n rfl fun p hp =>
        hsound p (Nat.le_of_lt (Nat.lt_of_le_of_lt hp hlt))
      refine ⟨n', (closesTo_telnet_iff hl hc).mpr hclose, hmarks.congr fun b hb => ?_⟩
      have hne : b ≠ c := hb.ne_of_telnet hc
      simp [reaches_iff hc, Shape.owned, hne]
  | none c hc =>
      rintro n rfl -
      refine ⟨n, closesTo_none hc, .refl fun b hb hreaches => ?_⟩
      obtain rfl := (reaches_none hc).mp hreaches
      obtain ⟨s, hs, -⟩ := hb
      cases hc.symm.trans hs

/-! What is closed already. -/

/-- A channel is settled once it and everything that it owns is marked. -/
def Settled (n : Network) (c : ChannelId) : Prop :=
  ∀ b, Reaches (layout n) c b → HasMark (layout n) b → n.isMarked b = true

/-- A node without what a scripted transport has written down. -/
def Node.unrecorded : Node → Node
  | .scripted s => .scripted { s with deeds := .empty }
  | node => node

/-- A network without what its scripted transports have written down. -/
def unrecorded (n : Network) : Network :=
  { n with nodes := n.nodes.map Node.unrecorded }

theorem Settled.of_mem_owned (h : n.Settled c) {s : Shape} (hc : (layout n)[c]? = some s)
    {d : ChannelId} (hd : d ∈ s.owned) : n.Settled d :=
  fun b hreaches hb => h b ((reaches_iff hc).mpr (.inr ⟨d, hd, hreaches⟩)) hb

theorem Settled.isMarked (h : n.Settled c) (hc : HasMark (layout n) c) : n.isMarked c = true :=
  h c .refl hc

theorem Settled.isPairClosed {reader writer : ChannelId} {owns : Channel.Ownership}
    (h : n.Settled c) (hc : (layout n)[c]? = some (.pair reader writer owns)) :
    isPairClosed c n = true := by
  have hmarked := h.isMarked ⟨_, hc, rfl⟩
  obtain ⟨closed, hnode⟩ := exists_pair hc
  rw [isMarked_eq hnode] at hmarked
  rwa [Network.isPairClosed, hnode]

theorem Settled.isClosed (h : n.Settled c) (hc : (layout n)[c]? = some .pipe) :
    isClosed c n = true := by
  have hmarked := h.isMarked ⟨_, hc, rfl⟩
  obtain ⟨e, he⟩ := exists_pipe hc
  rw [isMarked_eq he] at hmarked
  rwa [Network.isClosed, pipeEnd_eq he]

theorem Settled.isOpen_script (h : n.Settled c) (hc : (layout n)[c]? = some .scripted) :
    (script c n).isOpen = false := by
  have hmarked := h.isMarked ⟨_, hc, rfl⟩
  obtain ⟨s, hs⟩ := exists_scripted hc
  rw [isMarked_eq hs] at hmarked
  simpa [script, hs, Node.isMarked] using hmarked

theorem unrecorded_setNode {node node' : Node} (h : n.nodes[c]? = some node)
    (hsame : node'.unrecorded = node.unrecorded) :
    (n.setNode c node').unrecorded = n.unrecorded := by
  have hnodes : (n.setNode c node').nodes.map Node.unrecorded = n.nodes.map Node.unrecorded := by
    apply Array.ext_getElem?
    intro b
    rw [Array.getElem?_map, Array.getElem?_map, getElem?_setNode h]
    split
    next hb => rw [hb, h, Option.map_some, hsame, Option.map_some]
    next => rfl
  simp only [unrecorded, hnodes]
  rfl

/-- To close a settled channel again is to do nothing; but a scripted transport that is asked
again writes so down. -/
theorem exists_closesTo_settled {l : Array Shape} (hl : Ordered l) (c : ChannelId) :
    ∀ n, layout n = l → n.Settled c →
      ∃ n', ClosesTo c n n' ∧ n'.unrecorded = n.unrecorded ∧
        ((∀ b, Reaches l c b → l[b]? ≠ some .scripted) → n' = n) := by
  induction c using hl.induction with
  | pipe c hc =>
      rintro n rfl hsettled
      obtain ⟨e, he⟩ := exists_pipe hc
      exact ⟨n, closesTo_closed_pipe he (hsettled.isClosed hc), rfl, fun _ => rfl⟩
  | scripted c hc =>
      rintro n rfl hsettled
      obtain ⟨s, hs⟩ := exists_scripted hc
      have hopen : s.isOpen = false := by simpa [script, hs] using hsettled.isOpen_script hc
      have hsame : (Node.scripted s.close).unrecorded = (Node.scripted s).unrecorded := by
        simp [Node.unrecorded, Channel.Scripted.close, Channel.Scripted.record, hopen]
      exact ⟨_, closesTo_scripted hs, unrecorded_setNode hs hsame,
        fun hnone => absurd hc (hnone c .refl)⟩
  | pair c reader writer owns hc _ _ =>
      rintro n rfl hsettled
      exact ⟨n, closesTo_closed_pair hl hc (hsettled.isPairClosed hc), rfl, fun _ => rfl⟩
  | telnet c below hc hbelow =>
      rintro n rfl hsettled
      obtain ⟨n', hclose, hrecord, hsame⟩ :=
        hbelow n rfl (hsettled.of_mem_owned hc (by simp [Shape.owned]))
      refine ⟨n', (closesTo_telnet_iff hl hc).mpr hclose, hrecord, fun hnone => hsame ?_⟩
      intro b hreaches
      exact hnone b ((reaches_iff hc).mpr (.inr ⟨below, by simp [Shape.owned], hreaches⟩))
  | none c hc =>
      rintro n rfl -
      exact ⟨n, closesTo_none hc, rfl, fun _ => rfl⟩

/-- A channel that is settled says that it is not open. -/
theorem isOpen_settled {l : Array Shape} (hl : Ordered l) (c : ChannelId) :
    ∀ n, layout n = l → n.Settled c → ∀ time,
      ((channel c).isOpen : Work Empty Bool).advance time n = (n, [], .done false) := by
  induction c using hl.induction with
  | pipe c hc =>
      rintro n rfl hsettled time
      obtain ⟨e, he⟩ := exists_pipe hc
      rw [advance_isOpen (channelAt_pipe he)]
      change (n, [], Routine.done (!isClosed c n)) = _
      rw [hsettled.isClosed hc]
      rfl
  | scripted c hc =>
      rintro n rfl hsettled time
      rw [advance_isOpen (channelAt_scripted hc)]
      change (n, [], Routine.done (script c n).isOpen) = _
      rw [hsettled.isOpen_script hc]
  | pair c reader writer owns hc _ _ =>
      rintro n rfl hsettled time
      rw [advance_isOpen (channelAt_pair hl hc)]
      change Routine.advance time (if isPairClosed c n = true then _ else _) n = _
      rw [hsettled.isPairClosed hc]
      rfl
  | telnet c below hc hbelow =>
      rintro n rfl hsettled time
      have hopen := hbelow n rfl (hsettled.of_mem_owned hc (by simp [Shape.owned])) time
      rw [advance_isOpen (channelAt_telnet hl hc)]
      exact hopen
  | none c hc =>
      rintro n rfl - time
      rw [advance_isOpen (channelAt_none hc)]
      rfl

/-! Closing one channel after another. -/

/-- A network as it is composed: each channel rests on channels that were there before it, and
no pair has been closed.  Transports may be in any state. -/
structure Composed (n : Network) : Prop where
  ordered : Ordered (layout n)
  unclosed : ∀ (c reader writer : ChannelId) (owns : Channel.Ownership) (closed : Bool),
    n.nodes[c]? = some (Node.pair reader writer owns closed) → closed = false

/-- The network once some channels have been closed, one after another. -/
def afterClosing (n : Network) : List ChannelId → Network
  | [] => n
  | c :: rest =>
      (((channel c).close : Work Empty (Except Channel.Error Unit)).advance 0 n).1.afterClosing rest

/-- Nothing but a transport is marked, and a transport owns only itself. -/
theorem Composed.sound (hn : n.Composed) (c : ChannelId) : n.Sound c := by
  intro hmarked b hreaches _
  have hself : ∀ s : Shape, (layout n)[c]? = some s → s.owned = [] → b = c := by
    intro s hs howned
    simpa [reaches_iff hs, howned] using hreaches
  cases hc : n.nodes[c]? with
  | none => simp [isMarked, hc] at hmarked
  | some node =>
      have hshape := layout_eq hc
      cases node with
      | pipe | scripted => rwa [hself _ hshape rfl]
      | pair reader writer owns closed =>
          rw [isMarked_eq hc] at hmarked
          cases (hn.unclosed c reader writer owns closed hc).symm.trans hmarked
      | telnet =>
          rw [isMarked_eq hc] at hmarked
          cases hmarked

theorem Composed.afterClosing (hn : n.Composed) (cs : List ChannelId) :
    layout (n.afterClosing cs) = layout n ∧ ∀ p, (n.afterClosing cs).Sound p := by
  have hrun : ∀ m : Network, layout m = layout n → (∀ p, m.Sound p) →
      layout (m.afterClosing cs) = layout n ∧ ∀ p, (m.afterClosing cs).Sound p := by
    induction cs with
    | nil => exact fun m hm hsound => ⟨hm, hsound⟩
    | cons c rest ih =>
        intro m hm hsound
        obtain ⟨m', hclose, hmarks⟩ := exists_closesTo hn.ordered c m hm fun p _ => hsound p
        have hnext : ((channel c).close.advance 0 m).1 = m' := congrArg Prod.fst (hclose 0)
        rw [Network.afterClosing, hnext]
        apply ih m' (hmarks.layout_eq.trans hm)
        exact fun p => hmarks.sound (fun b hnow hreaches => hnow.trans (hm ▸ hreaches)) (hsound p)
  exact hrun n rfl hn.sound

/-- However channels are composed and whichever were closed before: to close one ends at once.
Of the transports and pairs exactly those are marked closed then that were before or that the
channel owns, through every layer; it and all that it owns say that they are not open.  To
close it again changes nothing, but that a scripted transport writes down that it was asked. -/
theorem close_closes_owned {n : Network} (hn : n.Composed) (before : List ChannelId)
    (c : ChannelId) :
    let l := layout n
    let found := n.afterClosing before
    ∃ closed, ClosesTo c found closed ∧
      (∀ b, HasMark l b →
        (closed.isMarked b = true ↔ found.isMarked b = true ∨ Reaches l c b)) ∧
      (∀ b, Reaches l c b → ∀ time,
        ((channel b).isOpen : Work Empty Bool).advance time closed = (closed, [], .done false)) ∧
      ∃ again, ClosesTo c closed again ∧ again.unrecorded = closed.unrecorded ∧
        ((∀ b, Reaches l c b → l[b]? ≠ some .scripted) → again = closed) := by
  intro l found
  obtain ⟨hlayout, hsound⟩ := hn.afterClosing before
  obtain ⟨closed, hclose, hmarks⟩ :=
    exists_closesTo hn.ordered c found hlayout fun p _ => hsound p
  have hlayout' : layout closed = l := hmarks.layout_eq.trans hlayout
  have hiff : ∀ b, HasMark l b →
      (closed.isMarked b = true ↔ found.isMarked b = true ∨ Reaches l c b) := by
    intro b hb
    exact hmarks.isMarked_iff b (hlayout.symm ▸ hb)
  have hsettled : ∀ b, Reaches l c b → closed.Settled b := by
    intro b hreaches d hd hmark
    rw [hlayout'] at hd hmark
    exact (hiff d hmark).mpr (.inr (hreaches.trans hd))
  obtain ⟨again, hagain⟩ :=
    exists_closesTo_settled hn.ordered c closed hlayout' (hsettled c .refl)
  exact ⟨closed, hclose, hiff,
    fun b hreaches => isOpen_settled hn.ordered b closed hlayout' (hsettled b hreaches),
    again, hagain⟩

/-- One pair owns both its halves, and another neither of the same two; a third uses Telnet over
the first of them as both its halves, and owns it as its writer only. -/
def shared : Network where
  nodes := #[
    .scripted {},
    .scripted {},
    .telnet 0 {} {},
    .pair 0 1 { reader := true, writer := true } false,
    .pair 0 1 { reader := false, writer := false } false,
    .pair 2 2 { reader := false, writer := true } false]

theorem reaches_shared : Reaches (layout shared) 5 b ↔ b = 5 ∨ b = 2 ∨ b = 0 := by
  have h₅ : (layout shared)[5]? = some (.pair 2 2 { reader := false, writer := true }) := by
    decide +kernel
  have h₂ : (layout shared)[2]? = some (.telnet 0) := by decide +kernel
  have h₀ : (layout shared)[0]? = some .scripted := by decide +kernel
  simp [reaches_iff h₅, reaches_iff h₂, reaches_iff h₀, Shape.owned]

/-- The pair over Telnet is closed after the one that owns nothing: of the transports only the
first is closed, and the pair that owns it is not. -/
theorem close_closes_owned_shared :
    shared.Composed ∧
      ∃ closed, ClosesTo 5 (shared.afterClosing [4]) closed ∧
        (∀ b ∈ [0, 1, 3, 4, 5], closed.isMarked b = true ↔ b ∈ [0, 4, 5]) ∧
        ∀ time,
          ((channel 2).isOpen : Work Empty Bool).advance time closed =
            (closed, [], .done false) := by
  have hcomposed : shared.Composed := by
    refine ⟨by decide +kernel, fun c reader writer owns closed hc => ?_⟩
    have hall : ∀ c < 6, shared.isMarked c = false := by decide
    have hopen := hall c (Array.getElem?_eq_some_iff.mp hc).1
    rwa [isMarked_eq hc] at hopen
  have hbefore : ∀ b ∈ [0, 1, 3, 4, 5],
      (∃ s, (layout shared)[b]? = some s ∧ s.hasMark = true) ∧
        ((shared.afterClosing [4]).isMarked b = true ∨ (b = 5 ∨ b = 2 ∨ b = 0) ↔
          b ∈ [0, 4, 5]) := by
    decide +kernel
  obtain ⟨closed, hclose, hmarked, hopen, -⟩ := close_closes_owned hcomposed [4] 5
  refine ⟨hcomposed, closed, hclose, fun b hb => ?_, hopen 2 (reaches_shared.mpr (by decide))⟩
  obtain ⟨hmark, hiff⟩ := hbefore b hb
  rw [hmarked b hmark, reaches_shared, hiff]

end RemoteConsole.Network
