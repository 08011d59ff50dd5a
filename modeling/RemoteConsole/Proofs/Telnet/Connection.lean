/-
Two engines joined by a pipe in either direction.  Whatever their owners do, and
however the bytes between them are cut up, both ends of every option stay linked
by the words that are under way.
-/
import RemoteConsole.Proofs.Telnet.Calls
import RemoteConsole.Proofs.Telnet.Heeding

namespace RemoteConsole.Telnet

/-- One end of a connection. -/
structure Party where
  engine : Engine
  /-- What the engine has queued. -/
  outbound : List UInt8 := []
  /-- What is on its way to the peer. -/
  wire : List UInt8 := []
  /-- The data that the engine has yielded. -/
  clean : List UInt8 := []

namespace Party

/-- What the peer has still to read. -/
def unread (p : Party) : List UInt8 :=
  p.wire ++ p.outbound

/-- The engine has moved, and given something off. -/
def moved (p : Party) (next : Engine × Output) : Party :=
  { p with
    engine := next.1
    outbound := p.outbound ++ next.2.sent
    clean := p.clean ++ next.2.clean }

/-- Put what is queued on the wire. -/
def take (p : Party) : Party :=
  { p with wire := p.wire ++ p.outbound, outbound := [] }

theorem unread_moved (p : Party) (next : Engine × Output) :
    (p.moved next).unread = p.unread ++ next.2.sent :=
  (List.append_assoc ..).symm

theorem unread_take (p : Party) : p.take.unread = p.unread :=
  List.append_nil _

end Party

/-- Two ends that read what the other sends. -/
structure Connection where
  near : Party
  far : Party

namespace Connection

inductive End where
  | near
  | far
deriving DecidableEq, Repr

/-- What can happen at one end. -/
inductive Move where
  /-- The owner makes a call. -/
  | call (c : Call)
  /-- What is queued is put on the wire. -/
  | take
  /-- The next bytes off the wire are decoded. -/
  | receive (count : Nat)
deriving DecidableEq, Repr

def swap (c : Connection) : Connection :=
  ⟨c.far, c.near⟩

@[simp] theorem near_swap (c : Connection) : c.swap.near = c.far := rfl

@[simp] theorem far_swap (c : Connection) : c.swap.far = c.near := rfl

@[simp] theorem swap_swap (c : Connection) : c.swap.swap = c := rfl

/-- Make a move at the near end. -/
def act (c : Connection) : Move → Connection
  | .call call => ⟨c.near.moved (c.near.engine.call call), c.far⟩
  | .take => ⟨c.near.take, c.far⟩
  | .receive count =>
      ⟨c.near.moved (c.near.engine.decode (c.far.wire.take count)),
        { c.far with wire := c.far.wire.drop count }⟩

/-- Make a move at either end. -/
def step (c : Connection) : End × Move → Connection
  | (.near, m) => c.act m
  | (.far, m) => (c.swap.act m).swap

@[simp] theorem step_near (c : Connection) (m : Move) : c.step (.near, m) = c.act m := rfl

@[simp] theorem step_far (c : Connection) (m : Move) :
    c.step (.far, m) = (c.swap.act m).swap := rfl

def run (c : Connection) (moves : List (End × Move)) : Connection :=
  moves.foldl step c

/-- Two engines at their start, nothing between them. -/
def start (near far : Setup) : Connection :=
  ⟨{ engine := near.engine }, { engine := far.engine }⟩

/-- What the near end has still to hear. -/
def ahead (c : Connection) : List Token :=
  c.near.engine.reader.tokens c.far.unread

/-- Whole messages are under way, and every option is linked by the words in
them. -/
structure Attuned (c : Connection) : Prop where
  whole : (c.near.engine.reader.after c.far.unread).decoder = .idle
  whole_swap : (c.far.engine.reader.after c.near.unread).decoder = .idle
  tame : ∀ t ∈ c.ahead, t.Tame
  tame_swap : ∀ t ∈ c.swap.ahead, t.Tame
  linked : ∀ o, o ≠ .timingMark → ∀ side,
    Linked (c.near.engine.options.standing o side)
      (c.far.engine.options.standing o side.other)
      (words side.other o c.swap.ahead) (words side o c.ahead)

theorem Attuned.swap {c : Connection} (h : c.Attuned) : c.swap.Attuned where
  whole := h.whole_swap
  whole_swap := h.whole
  tame := h.tame_swap
  tame_swap := h.tame
  linked o ho side := by
    have hlinked := h.linked o ho side.other
    rw [Side.other_other] at hlinked
    exact hlinked.symm

theorem attuned_start (near far : Setup) : (start near far).Attuned where
  whole := rfl
  whole_swap := rfl
  tame := by simp [ahead, start, Party.unread, Reader.tokens]
  tame_swap := by simp [ahead, start, swap, Party.unread, Reader.tokens]
  linked o _ side := by
    change Linked (near.engine.options.standing o side)
      (far.engine.options.standing o side.other) [] []
    rw [Setup.standing_engine, Setup.standing_engine]
    decide

end Connection

/-! Calls. -/

/-- Calls that negotiate, about anything but the timing mark, or send data. -/
def Call.Tame : Call → Prop
  | .request _ o _ => o ≠ .timingMark
  | .permit .. => True
  | .encode _ => True
  | _ => False

instance : DecidablePred Call.Tame := fun c => by
  cases c <;> simp only [Call.Tame] <;> infer_instance

/-- What a call sends reads as `us`: the engine has read nothing, and every side of
every option is where the owner wishes it, with what is said of that. -/
structure Utters (limit : Nat) (e : Engine) (call : Call) (us : List Token) : Prop where
  reads : Reads limit (e.call call).2.sent us
  tame : ∀ t ∈ us, t.Tame
  reader : (e.call call).1.reader = e.reader
  standing : ∀ o side, (e.call call).1.options.standing o side =
    (e.options.standing o side).obey (call.wish? side o)
  tells : ∀ o side, words side.other o us =
    (e.options.standing o side).tells (call.wish? side o)

/-- A call that leaves every option where it stands and says nothing of any. -/
theorem Utters.of_unsaid {limit : Nat} {e : Engine} {call : Call} {us : List Token}
    (hreads : Reads limit (e.call call).2.sent us) (htame : ∀ t ∈ us, t.Tame)
    (hwords : ∀ side o, words side o us = [])
    (hwish : ∀ side o, call.wish? side o = none)
    (hreader : (e.call call).1.reader = e.reader)
    (hstanding : ∀ o side, (e.call call).1.options.standing o side =
      e.options.standing o side) : Utters limit e call us where
  reads := hreads
  tame := htame
  reader := hreader
  standing o side := by
    rw [hwish, hstanding]
    rfl
  tells o side := by
    rw [hwish, hwords]
    rfl

/-- A tame call sends whole messages. -/
theorem Engine.call_tame (limit : Nat) (e : Engine) {call : Call} (h : call.Tame) :
    ∃ us, Utters limit e call us := by
  cases call with
  | request side o enable =>
      let reaction := ((e.options.standing o side).wish enable).2
      refine ⟨reaction.words.map (.word side.other o), ?_, ?_, rfl, ?_, ?_⟩
      · rw [call_request, reaction_wished]
        exact reads_reactionBytes limit side o reaction
      · intro t ht
        obtain ⟨w, -, rfl⟩ := List.mem_map.mp ht
        exact h
      · intro p other
        by_cases hself : other = side ∧ p = o
        · rw [Call.wish?, if_pos hself]
          obtain ⟨rfl, rfl⟩ := hself
          exact standing_wished e other p enable
        · rw [Call.wish?, if_neg hself]
          exact standing_wished_of_ne e enable hself
      · intro p other
        by_cases hself : other = side ∧ p = o
        · rw [Call.wish?, if_pos hself]
          obtain ⟨rfl, rfl⟩ := hself
          exact words_map_word other.other p reaction.words
        · have hne : ¬(side.other = other.other ∧ o = p) := by
            rintro ⟨hside, rfl⟩
            refine hself ⟨?_, rfl⟩
            simpa using (congrArg Side.other hside).symm
          rw [Call.wish?, if_neg hself, words_map_word_of_ne _ hne]
          rfl
  | permit side o value =>
      refine ⟨[], Utters.of_unsaid (Reads.nil limit) (by simp) (by simp) (fun _ _ => rfl) rfl ?_⟩
      intro p other
      exact OptionTable.standing_permit ..
  | encode data =>
      exact ⟨_, Utters.of_unsaid (Reads.escape limit e.writesBinary data) (by simp [Token.Tame])
        (fun side o => words_map_data side o _) (fun _ _ => rfl) rfl (fun _ _ => rfl)⟩
  | _ => exact h.elim

/-- Policy changes only by a decision. -/
theorem Engine.agrees_call (e : Engine) {call : Call} (h : call.Tame) {side : Side}
    {o : OptionCode} (hleaves : call.Leaves side o) :
    ((e.call call).1.options.get o).agrees side = (e.options.get o).agrees side := by
  cases call with
  | request s p enable => exact OptionTable.agrees_step ..
  | permit s p value => exact OptionTable.agrees_permit_of_ne _ _ hleaves
  | encode data => rfl
  | _ => exact h.elim

namespace Connection

/-- An owner's call does not read. -/
theorem ahead_call {c : Connection} {limit : Nat} {call : Call} {us : List Token}
    (h : Utters limit c.near.engine call us) : (c.act (.call call)).ahead = c.ahead :=
  congrArg (Reader.tokens · c.far.unread) h.reader

theorem ahead_take (c : Connection) : (c.act .take).swap.ahead = c.swap.ahead :=
  congrArg c.far.engine.reader.tokens c.near.unread_take

namespace Attuned

variable {c : Connection}

theorem take (h : c.Attuned) : (c.act .take).Attuned where
  whole := h.whole
  whole_swap := by
    change (c.far.engine.reader.after c.near.take.unread).decoder = .idle
    rw [Party.unread_take]
    exact h.whole_swap
  tame := h.tame
  tame_swap := by
    rw [ahead_take]
    exact h.tame_swap
  linked := by
    rw [ahead_take]
    exact h.linked

/-- What the near end sends is read after all that is under way. -/
theorem sent (h : c.Attuned) {next : Engine × Output} {us : List Token}
    (hreads : Reads c.far.engine.reader.limit next.2.sent us) :
    (c.far.engine.reader.after (c.near.moved next).unread).decoder = .idle ∧
      c.far.engine.reader.tokens (c.near.moved next).unread = c.swap.ahead ++ us := by
  rw [Party.unread_moved]
  exact hreads.extend h.whole_swap

theorem utter (h : c.Attuned) {call : Call} {us : List Token}
    (hcall : Utters c.far.engine.reader.limit c.near.engine call us) :
    (c.act (.call call)).Attuned := by
  obtain ⟨hwhole, hahead⟩ := h.sent hcall.reads
  have hnear := ahead_call hcall
  have hfar : (c.act (.call call)).swap.ahead = c.swap.ahead ++ us := hahead
  exact {
    whole := by
      change ((c.near.engine.call call).1.reader.after c.far.unread).decoder = .idle
      rw [hcall.reader]
      exact h.whole
    whole_swap := hwhole
    tame := by
      rw [hnear]
      exact h.tame
    tame_swap := by
      rw [hfar]
      intro t ht
      rcases List.mem_append.mp ht with hmem | hmem
      · exact h.tame_swap t hmem
      · exact hcall.tame t hmem
    linked := by
      intro o ho side
      change Linked ((c.near.engine.call call).1.options.standing o side) _ _ _
      rw [hnear, hfar, words_append, hcall.standing, hcall.tells]
      exact (h.linked o ho side).obey _ }

theorem call (h : c.Attuned) {call : Call} (hcall : call.Tame) :
    (c.act (.call call)).Attuned := by
  obtain ⟨us, hutters⟩ := c.near.engine.call_tame c.far.engine.reader.limit hcall
  exact h.utter hutters

end Attuned

/-! Deliveries. -/

/-- The bytes that receiving takes off the wire. -/
def chunk (c : Connection) (count : Nat) : List UInt8 :=
  c.far.wire.take count

/-- The tokens that receiving completes. -/
def heard (c : Connection) (count : Nat) : List Token :=
  c.near.engine.reader.tokens (c.chunk count)

theorem unread_receive (c : Connection) (count : Nat) :
    c.far.unread = c.chunk count ++ (c.act (.receive count)).far.unread := by
  change c.far.wire ++ c.far.outbound =
    c.far.wire.take count ++ (c.far.wire.drop count ++ c.far.outbound)
  rw [← List.append_assoc, List.take_append_drop]

/-- What the near end received it heard, and what it says to that, which reads as
`us`, comes after all that was under way from it. -/
structure Receipt (c : Connection) (count : Nat) (us : List Token) : Prop where
  heeds : Heeds c.far.engine.reader.limit c.near.engine (c.heard count)
    (c.act (.receive count)).near.engine (c.near.engine.decode (c.chunk count)).2.sent us
  ahead : c.ahead = c.heard count ++ (c.act (.receive count)).ahead
  ahead_swap : (c.act (.receive count)).swap.ahead = c.swap.ahead ++ us
  whole : ((c.act (.receive count)).near.engine.reader.after
    (c.act (.receive count)).far.unread).decoder = .idle
  whole_swap : ((c.act (.receive count)).far.engine.reader.after
    (c.act (.receive count)).near.unread).decoder = .idle

theorem Attuned.receipt {c : Connection} (h : c.Attuned) (count : Nat) :
    ∃ us, c.Receipt count us := by
  obtain ⟨us, hheeds⟩ := Heeds.decode c.far.engine.reader.limit c.near.engine (c.chunk count)
  have hreader : (c.act (.receive count)).near.engine.reader =
      c.near.engine.reader.after (c.chunk count) := Engine.reader_decode _ _
  obtain ⟨hwhole, hahead⟩ := h.sent hheeds.reads
  refine ⟨us, hheeds, ?_, hahead, ?_, hwhole⟩
  · rw [Connection.ahead, Connection.ahead, c.unread_receive count, Reader.tokens_append,
      hreader]
    rfl
  · rw [hreader, ← Reader.after_append, ← c.unread_receive count]
    exact h.whole

theorem Attuned.tame_heard {c : Connection} (h : c.Attuned) (count : Nat) :
    ∀ t ∈ c.heard count, t.Tame := by
  intro t ht
  apply h.tame t
  rw [Connection.ahead, c.unread_receive count, Reader.tokens_append]
  exact List.mem_append_left _ ht

theorem Attuned.receive {c : Connection} (h : c.Attuned) (count : Nat) :
    (c.act (.receive count)).Attuned := by
  obtain ⟨us, hreceipt⟩ := h.receipt count
  exact {
    whole := hreceipt.whole
    whole_swap := hreceipt.whole_swap
    tame := by
      intro t ht
      apply h.tame t
      rw [hreceipt.ahead]
      exact List.mem_append_right _ ht
    tame_swap := by
      rw [hreceipt.ahead_swap]
      intro t ht
      rcases List.mem_append.mp ht with hmem | hmem
      · exact h.tame_swap t hmem
      · exact (hreceipt.heeds.negotiates (h.tame_heard count) t hmem).tame
    linked := by
      intro o ho side
      have hlinked := h.linked o ho side
      rw [hreceipt.ahead, words_append] at hlinked
      rw [hreceipt.heeds.standing o ho side, hreceipt.ahead_swap, words_append,
        hreceipt.heeds.answers o ho side]
      exact hlinked.heed _ _ }

/-! Runs. -/

/-- Moves whose calls are tame. -/
def Move.Tame : Move → Prop
  | .call c => c.Tame
  | .take => True
  | .receive _ => True

instance : DecidablePred Move.Tame := fun m => by
  cases m <;> simp only [Move.Tame] <;> infer_instance

theorem Attuned.act {c : Connection} (h : c.Attuned) {m : Move} (hm : m.Tame) :
    (c.act m).Attuned := by
  cases m with
  | call call => exact h.call hm
  | take => exact h.take
  | receive count => exact h.receive count

theorem Attuned.step {c : Connection} (h : c.Attuned) {m : End × Move} (hm : m.2.Tame) :
    (c.step m).Attuned := by
  obtain ⟨e, m⟩ := m
  cases e with
  | near => exact h.act hm
  | far => exact (h.swap.act hm).swap

/-- What each of the moves keeps, a run keeps. -/
theorem run_induction {P : Connection → Prop} {Q : End × Move → Prop}
    (hstep : ∀ c m, Q m → P c → P (c.step m)) {c : Connection} (h : P c)
    {moves : List (End × Move)} (hmoves : ∀ m ∈ moves, Q m) : P (c.run moves) := by
  induction moves generalizing c with
  | nil => exact h
  | cons m moves ih =>
      have hnext := hstep c m (hmoves m List.mem_cons_self) h
      apply ih hnext
      intro m' hm'
      exact hmoves m' (List.mem_cons_of_mem m hm')

theorem Attuned.run {c : Connection} (h : c.Attuned) {moves : List (End × Move)}
    (hmoves : ∀ m ∈ moves, m.2.Tame) : (c.run moves).Attuned := by
  apply run_induction (P := Attuned) _ h hmoves
  intro c m hm h
  exact h.step hm

end Connection

end RemoteConsole.Telnet
