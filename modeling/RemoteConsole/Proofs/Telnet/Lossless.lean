/-
A Telnet channel over a channel of any kind, with a record of what passes between the
two.  However the bytes come in, and whatever fails, the owner gets what one decoding of
all of them gives: each clean byte is returned by a read, thrown away by a flush or still
waiting, in order.
-/
import RemoteConsole.Channel.Scripted
import RemoteConsole.Channel.Telnet

namespace RemoteConsole.Telnet

/-- A Telnet channel over a channel with states `σ`, and what has passed so far. -/
structure Tapped (σ : Type) where
  inner : σ
  link : Link
  events : List Event := []
  /-- What the reads of the inner channel have returned. -/
  raw : List UInt8 := []
  /-- What the writes of the inner channel have taken. -/
  written : List UInt8 := []
  /-- Whether a write of the inner channel has failed. -/
  failed : Bool := false
  /-- The clean bytes that wait no longer. -/
  gone : List UInt8 := []

namespace Tapped

variable {σ : Type}

/-- A Telnet channel just laid over a channel, with bytes queued for the peer. -/
def start (s : σ) (e : Engine) (queued : List UInt8) : Tapped σ :=
  { inner := s, link := { engine := e, outbound := queued } }

/-- Take over a link.  Pending bytes only ever go from the front. -/
def setLink (t : Tapped σ) (link : Link) : Tapped σ :=
  { t with
    link
    gone := t.gone ++ t.link.pending.take (t.link.pending.length - link.pending.length) }

/-- The Telnet layer has one owner, so no other reader is ever in the way.  A call is
followed to so many chunks. -/
def hold (chunks : Nat) : LinkHold (StateM (Tapped σ)) where
  get := return (← get).link
  set link := modify (·.setLink link)
  report events := modify fun t => { t with events := t.events ++ events }
  alone call := call
  aloneNow call := some <$> call
  chunks := chunks

/-- Work on the inner channel. -/
def below {α : Type} (work : StateM σ α) : StateM (Tapped σ) α := fun t =>
  ((work t.inner).1, { t with inner := (work t.inner).2 })

/-- The bytes that a read returned. -/
def returned : Except Channel.Error (List UInt8) → List UInt8
  | .ok bytes => bytes
  | .error _ => []

/-- Keep what a read of the inner channel returned. -/
def readFrom (t : Tapped σ) (result : Except Channel.Error (List UInt8)) : Tapped σ :=
  { t with raw := t.raw ++ returned result }

/-- Keep what a write to the inner channel did. -/
def wroteTo (t : Tapped σ) (bytes : List UInt8) : Except Channel.Error Unit → Tapped σ
  | .ok () => { t with written := t.written ++ bytes }
  | .error _ => { t with failed := true }

/-- The inner channel, with its reads and writes recorded. -/
def tap (inner : Channel (StateM σ)) : Channel (StateM (Tapped σ)) :=
  { inner.map below with
    read := fun count => do
      let result ← below (inner.read count)
      modify (·.readFrom result)
      pure result
    write := fun bytes => do
      let result ← below (inner.write bytes)
      modify (·.wroteTo bytes result)
      pure result }

/-- What the owner reads from. -/
def channel (chunks : Nat) (inner : Channel (StateM σ)) : Channel (StateM (Tapped σ)) :=
  (hold chunks).channel (tap inner)

/-- What an owner who reads does. -/
inductive Use where
  | read (count : Nat)
  | flushInput
deriving DecidableEq, Repr

/-- Do one thing: the clean bytes that it returns or throws away. -/
def use (chunks : Nat) (inner : Channel (StateM σ)) :
    Use → StateM (Tapped σ) (List UInt8)
  | .read count => return returned (← (channel chunks inner).read count)
  | .flushInput => do
      let before := (← get).gone.length
      let _ ← ((hold chunks).flushInput (tap inner)).run
      return (← get).gone.drop before

/-- Do one thing after another, whether or not they succeed. -/
def useAll (chunks : Nat) (inner : Channel (StateM σ)) :
    List Use → StateM (Tapped σ) (List UInt8)
  | [] => return []
  | u :: us => do
      let first ← use chunks inner u
      return first ++ (← useAll chunks inner us)

/-! Runs of the parts of a read.  Some read no chunk themselves, so any hold will do. -/

/-- Take in a chunk. -/
def receive (t : Tapped σ) (bytes : List UInt8) : Tapped σ :=
  (((hold 0).receive bytes).run t).2

/-- Send off what waits for the peer. -/
def flush (inner : Channel (StateM σ)) (t : Tapped σ) : Except Channel.Error Unit × Tapped σ :=
  ((hold 0).flush (tap inner)).run t

variable {limit : Nat}

theorem run_get (t : Tapped σ) : (hold limit).get.run t = (t.link, t) := rfl

theorem receive_eq (t : Tapped σ) (bytes : List UInt8) :
    t.receive bytes =
      { t with
        link :=
          { engine := (t.link.engine.decode bytes).1
            outbound := t.link.outbound ++ (t.link.engine.decode bytes).2.sent
            pending := t.link.pending ++ (t.link.engine.decode bytes).2.clean }
        events := t.events ++ (t.link.engine.decode bytes).2.events } := by
  let next := t.link.engine.decode bytes
  change ({ t.setLink { t.link.absorb next.1 next.2 with
    pending := t.link.pending ++ next.2.clean } with
      events := t.events ++ next.2.events } : Tapped σ) = _
  simp [setLink, Link.absorb, next]

theorem flush_eq (inner : Channel (StateM σ)) (t : Tapped σ) :
    flush inner t =
      if t.link.outbound = [] then (.ok (), t)
      else ((tap inner).write t.link.outbound).run
        { t with link := { t.link with outbound := [] } } := by
  change (if t.link.outbound = [] then pure (.ok ()) else do
    (hold 0).set { t.link with outbound := [] }
    (tap inner).write t.link.outbound : StateM (Tapped σ) _).run t = _
  split
  · rfl
  · change ((tap inner).write t.link.outbound).run (t.setLink { t.link with outbound := [] }) = _
    simp [setLink]

/-- What a read or a flush of input does after a chunk: it goes on if the replies could be
sent. -/
theorem run_flushThen {α : Type} (inner : Channel (StateM σ))
    (next : StateM (Tapped σ) (Except Channel.Error α)) (t : Tapped σ) :
    ((hold limit).flush (tap inner) >>= fun outcome => match outcome with
      | .error e => pure (.error e)
      | .ok () => next : StateM (Tapped σ) (Except Channel.Error α)).run t =
      match flush inner t with
      | (.error e, t') => (.error e, t')
      | (.ok (), t') => next.run t' := by
  have hflush : ((hold limit).flush (tap inner)).run t = flush inner t := rfl
  rw [StateT.run_bind, hflush]
  generalize flush inner t = sent
  obtain ⟨outcome, t'⟩ := sent
  cases outcome <;> rfl

theorem run_take (inner : Channel (StateM σ)) (count chunks : Nat) (t : Tapped σ) :
    ((hold limit).take (tap inner) count (chunks + 1)).run t =
      if t.link.pending ≠ [] then
        (.ok (t.link.pending.take count),
          t.setLink { t.link with pending := t.link.pending.drop count })
      else
        match ((tap inner).read t.link.chunkSize).run t with
        | (.error e, t') => (.error e, t')
        | (.ok bytes, t') =>
            match flush inner (t'.receive bytes) with
            | (.error e, t'') => (.error e, t'')
            | (.ok (), t'') => ((hold limit).take (tap inner) count chunks).run t'' := by
  rw [LinkHold.take, StateT.run_bind, run_get]
  change (if t.link.pending ≠ [] then _ else _ : StateM (Tapped σ) _).run t = _
  split
  · rfl
  · rw [StateT.run_bind]
    generalize ((tap inner).read t.link.chunkSize).run t = next
    obtain ⟨result, t'⟩ := next
    cases result with
    | error e => rfl
    | ok bytes =>
        exact run_flushThen inner ((hold limit).take (tap inner) count chunks) (t'.receive bytes)

/-- Throw away what waits to be read. -/
def clear (t : Tapped σ) : Tapped σ :=
  t.setLink { t.link with pending := [] }

theorem run_discard (inner : Channel (StateM σ)) (chunks : Nat) (t : Tapped σ) :
    ((hold limit).discard (tap inner) (chunks + 1)).run t =
      match ((tap inner).read t.link.chunkSize).run t with
      | (.error .timeout, t') => (.ok (), t')
      | (.error e, t') => (.error e, t')
      | (.ok bytes, t') =>
          match flush inner (t'.receive bytes).clear with
          | (.error e, t'') => (.error e, t'')
          | (.ok (), t'') => ((hold limit).discard (tap inner) chunks).run t'' := by
  rw [LinkHold.discard, StateT.run_bind, run_get]
  change ((tap inner).read t.link.chunkSize >>= fun _ => _ :
    StateM (Tapped σ) _).run t = _
  rw [StateT.run_bind]
  generalize ((tap inner).read t.link.chunkSize).run t = next
  obtain ⟨result, t'⟩ := next
  cases result with
  | error e => cases e <;> rfl
  | ok bytes =>
      exact run_flushThen inner ((hold limit).discard (tap inner) chunks) (t'.receive bytes).clear

/-- A flush of input: no waiting while it lasts, and the timeout put back at the end. -/
theorem run_flushInput (inner : Channel (StateM σ)) (t : Tapped σ) :
    (((hold limit).flushInput (tap inner)).run.run t).2 =
      let timeout := inner.readTimeout t.inner
      let begun := ((below (inner.setReadTimeout (some .zero))).run
        { t.clear with inner := timeout.2 }).2
      let drained := (((hold limit).discard (tap inner) limit).run begun).2
      ((below (inner.setReadTimeout timeout.1)).run drained).2 := by
  let timeout := inner.readTimeout t.inner
  let begun := ((below (inner.setReadTimeout (some .zero))).run
    { t.clear with inner := timeout.2 }).2
  let drained := ((hold limit).discard (tap inner) limit).run begun
  rw [LinkHold.flushInput, ExceptT.run_bind, StateT.run_bind]
  have hrun : (ExceptT.run ((hold limit).aloneNow (do
      (hold limit).set { ← (hold limit).get with pending := [] }
      let timeout ← (tap inner).readTimeout
      (tap inner).setReadTimeout (some .zero)
      let result ← (hold limit).discard (tap inner) (@hold σ limit).chunks
      (tap inner).setReadTimeout timeout
      pure result) : Attempt (StateM (Tapped σ)) _)).run t =
      (.ok (some drained.1), ((below (inner.setReadTimeout timeout.1)).run drained.2).2) := rfl
  rw [hrun]
  cases drained.1 <;> rfl

/-! What one decoding of everything read accounts for. -/

/-- An engine that started as `e`, with `queued` waiting for the peer, is where one
decoding of everything read puts it, and all of its output is accounted for. -/
structure Accounts (e : Engine) (queued : List UInt8) (t : Tapped σ) : Prop where
  engine : t.link.engine = (e.decode t.raw).1
  events : t.events = (e.decode t.raw).2.events
  clean : t.gone ++ t.link.pending = (e.decode t.raw).2.clean
  sent : t.failed = false →
    t.written ++ t.link.outbound = queued ++ (e.decode t.raw).2.sent

variable {e : Engine} {queued : List UInt8} {t t' : Tapped σ}

theorem accounts_start (s : σ) (e : Engine) (queued : List UInt8) :
    Accounts e queued (start s e queued) :=
  ⟨rfl, rfl, rfl, fun _ => (List.append_nil queued).symm⟩

/-- What the inner channel does by itself is no matter. -/
theorem Accounts.inner (h : Accounts e queued t) (s : σ) :
    Accounts e queued { t with inner := s } :=
  ⟨h.engine, h.events, h.clean, h.sent⟩

/-- Clean bytes may leave from the front. -/
theorem Accounts.setPending (h : Accounts e queued t) (count : Nat) :
    Accounts e queued (t.setLink { t.link with pending := t.link.pending.drop count }) := by
  refine ⟨h.engine, h.events, Eq.trans ?_ h.clean, h.sent⟩
  simp only [setLink, List.length_drop, List.append_assoc, List.append_cancel_left_eq]
  rcases Nat.le_total count t.link.pending.length with hle | hle
  · rw [Nat.sub_sub_self hle, List.take_append_drop]
  · simp [Nat.sub_eq_zero_of_le hle, List.drop_eq_nil_of_le hle]

theorem Accounts.clear (h : Accounts e queued t) : Accounts e queued t.clear := by
  have hdrop := h.setPending t.link.pending.length
  rwa [List.drop_length] at hdrop

theorem run_read_tap (inner : Channel (StateM σ)) (count : Nat) (t : Tapped σ) :
    ((tap inner).read count).run t = ((inner.read count t.inner).1,
      { t with inner := (inner.read count t.inner).2 }.readFrom
        (inner.read count t.inner).1) := rfl

/-- A chunk is decoded after all that was read before. -/
theorem Accounts.receive {inner : Channel (StateM σ)} {count : Nat} {bytes : List UInt8}
    (h : Accounts e queued t)
    (hread : ((tap inner).read count).run t = (.ok bytes, t')) :
    Accounts e queued (t'.receive bytes) := by
  rw [run_read_tap, Prod.mk.injEq] at hread
  obtain ⟨hresult, rfl⟩ := hread
  have hdecode := e.decode_append t.raw bytes
  rw [hresult, receive_eq]
  refine ⟨?_, ?_, ?_, ?_⟩ <;> simp only [readFrom, returned, hdecode, h.engine]
  · simp [h.events]
  · simp [← h.clean]
  · intro hfailed
    simp [← List.append_assoc, h.sent hfailed]

theorem Accounts.flush (h : Accounts e queued t) (inner : Channel (StateM σ)) :
    Accounts e queued (flush inner t).2 := by
  rw [flush_eq]
  split
  · exact h
  · change Accounts e queued (wroteTo _ t.link.outbound (inner.write t.link.outbound t.inner).1)
    cases (inner.write t.link.outbound t.inner).1 with
    | ok _ =>
        refine ⟨h.engine, h.events, h.clean, fun hfailed => ?_⟩
        simpa [wroteTo] using h.sent hfailed
    | error _ => exact ⟨h.engine, h.events, h.clean, by simp [wroteTo]⟩

/-- Nothing is left for the peer once a chunk has been read. -/
def Prompt (queued : List UInt8) (t : Tapped σ) : Prop :=
  t.link.outbound = [] ∨ t.raw = [] ∧ t.link.outbound = queued

theorem outbound_flush (inner : Channel (StateM σ)) (t : Tapped σ) :
    (flush inner t).2.link.outbound = [] := by
  rw [flush_eq]
  split
  next hempty => exact hempty
  next =>
    change (wroteTo _ t.link.outbound (inner.write t.link.outbound t.inner).1).link.outbound = []
    cases (inner.write t.link.outbound t.inner).1 <;> rfl

theorem gone_flush (inner : Channel (StateM σ)) (t : Tapped σ) :
    (flush inner t).2.gone = t.gone := by
  rw [flush_eq]
  split
  · rfl
  · change (wroteTo _ t.link.outbound (inner.write t.link.outbound t.inner).1).gone = t.gone
    cases (inner.write t.link.outbound t.inner).1 <;> rfl

theorem gone_receive {inner : Channel (StateM σ)} {count : Nat} {bytes : List UInt8}
    (hread : ((tap inner).read count).run t = (.ok bytes, t')) :
    (t'.receive bytes).gone = t.gone := by
  rw [run_read_tap, Prod.mk.injEq] at hread
  obtain ⟨-, rfl⟩ := hread
  rw [receive_eq]
  rfl

/-- What a call comes to: the accounts are kept, and no byte that left comes back. -/
structure Follows (e : Engine) (queued : List UInt8) (t t' : Tapped σ) : Prop where
  accounts : Accounts e queued t'
  prompt : Prompt queued t'
  gone : t.gone <+: t'.gone

theorem Follows.trans {t'' : Tapped σ} (h : Follows e queued t t')
    (h' : Follows e queued t' t'') : Follows e queued t t'' :=
  ⟨h'.accounts, h'.prompt, h.gone.trans h'.gone⟩

/-- A failed read brings nothing. -/
theorem Follows.failedRead {inner : Channel (StateM σ)} {count : Nat} {error : Channel.Error}
    (h : Accounts e queued t) (hprompt : Prompt queued t)
    (hread : ((tap inner).read count).run t = (.error error, t')) :
    Follows e queued t t' ∧ t'.gone = t.gone := by
  rw [run_read_tap, Prod.mk.injEq] at hread
  obtain ⟨hresult, rfl⟩ := hread
  rw [hresult]
  simp only [readFrom, returned, List.append_nil, and_true]
  exact ⟨h.inner _, hprompt, List.prefix_rfl⟩

/-- After a chunk the replies are sent off, so that nothing waits for the peer. -/
theorem Follows.flush {inner : Channel (StateM σ)} {result : Except Channel.Error Unit}
    (h : Accounts e queued t) (hflush : flush inner t = (result, t')) :
    Follows e queued t t' ∧ t'.gone = t.gone := by
  obtain rfl : (Tapped.flush inner t).2 = t' := by rw [hflush]
  have hgone := gone_flush inner t
  exact ⟨⟨h.flush inner, Or.inl (outbound_flush inner t), hgone ▸ List.prefix_rfl⟩, hgone⟩

/-! Reads. -/

/-- What a read comes to. -/
structure Returns (e : Engine) (queued : List UInt8) (count : Nat) (t : Tapped σ)
    (out : Except Channel.Error (List UInt8) × Tapped σ) : Prop where
  follows : Follows e queued t out.2
  /-- Exactly what is returned leaves. -/
  gone : out.2.gone = t.gone ++ returned out.1
  nonempty : ∀ bytes, out.1 = .ok bytes → count ≠ 0 → bytes ≠ []

theorem Returns.failed {error : Channel.Error} {count : Nat} (h : Follows e queued t t')
    (hgone : t'.gone = t.gone) : Returns e queued count t (.error error, t') :=
  ⟨h, by simp [returned, hgone], fun _ hresult => nomatch hresult⟩

/-- Pending bytes are taken from the front. -/
theorem returns_pending (h : Accounts e queued t) (hprompt : Prompt queued t) (count : Nat)
    (hpending : t.link.pending ≠ []) :
    Returns e queued count t (.ok (t.link.pending.take count),
      t.setLink { t.link with pending := t.link.pending.drop count }) := by
  have hgone : (t.setLink { t.link with pending := t.link.pending.drop count }).gone =
      t.gone ++ t.link.pending.take count := by
    simp only [setLink, List.length_drop, List.append_cancel_left_eq]
    rcases Nat.le_total count t.link.pending.length with hle | hle
    · rw [Nat.sub_sub_self hle]
    · simp [Nat.sub_eq_zero_of_le hle, List.take_of_length_le hle]
  refine ⟨⟨h.setPending count, hprompt, hgone ▸ List.prefix_append _ _⟩, hgone, ?_⟩
  rintro _ ⟨⟩ hcount
  simp [hpending, hcount]

variable (limit)

theorem returns_take (inner : Channel (StateM σ)) (count chunks : Nat)
    (h : Accounts e queued t) (hprompt : Prompt queued t) :
    Returns e queued count t (((hold limit).take (tap inner) count chunks).run t) := by
  induction chunks generalizing t with
  | zero => exact .failed ⟨h, hprompt, List.prefix_rfl⟩ rfl
  | succ chunks ih =>
      rw [run_take]
      split
      next hpending => exact returns_pending h hprompt count hpending
      next =>
          rcases hread : ((tap inner).read t.link.chunkSize).run t with
            ⟨error | bytes, t₁⟩
          · obtain ⟨hfollows, hgone⟩ := Follows.failedRead h hprompt hread
            exact .failed hfollows hgone
          · rcases hflush : flush inner (t₁.receive bytes) with ⟨error | _, t₂⟩
            all_goals
              obtain ⟨hfollows, hflushed⟩ := Follows.flush (h.receive hread) hflush
              have hgone : t₂.gone = t.gone := hflushed.trans (gone_receive hread)
              have hfollows : Follows e queued t t₂ :=
                ⟨hfollows.accounts, hfollows.prompt, hgone ▸ List.prefix_rfl⟩
              dsimp only
              rw [hflush]
            · exact .failed hfollows hgone
            · have hrest := ih hfollows.accounts hfollows.prompt
              exact ⟨hfollows.trans hrest.follows, hgone ▸ hrest.gone, hrest.nonempty⟩

theorem returns_read (inner : Channel (StateM σ)) (count : Nat) (h : Accounts e queued t)
    (hprompt : Prompt queued t) :
    Returns e queued count t (((channel limit inner).read count).run t) := by
  let opened : Tapped σ := { t with inner := (inner.isOpen t.inner).2 }
  have haccounts : Accounts e queued opened := h.inner _
  change Returns e queued count t ((if (!(inner.isOpen t.inner).1) = true then
    pure (.error .notOpen) else if count = 0 then pure (.ok [])
      else (hold limit).take (tap inner) count limit : StateM (Tapped σ) _).run opened)
  split
  · exact .failed ⟨haccounts, hprompt, List.prefix_rfl⟩ rfl
  · split
    next hzero =>
        refine ⟨⟨haccounts, hprompt, List.prefix_rfl⟩, (List.append_nil _).symm, ?_⟩
        exact fun _ _ hcount => absurd hzero hcount
    next =>
        have htake := returns_take limit inner count limit haccounts hprompt
        exact ⟨⟨htake.follows.accounts, htake.follows.prompt, htake.follows.gone⟩, htake.gone,
          htake.nonempty⟩

/-! Flushes. -/

theorem Follows.clear (h : Accounts e queued t) (hprompt : Prompt queued t) :
    Follows e queued t t.clear :=
  ⟨h.clear, hprompt, List.prefix_append _ _⟩

theorem follows_discard (inner : Channel (StateM σ)) (chunks : Nat)
    (h : Accounts e queued t) (hprompt : Prompt queued t) :
    Follows e queued t (((hold limit).discard (tap inner) chunks).run t).2 := by
  induction chunks generalizing t with
  | zero => exact ⟨h, hprompt, List.prefix_rfl⟩
  | succ chunks ih =>
      rw [run_discard]
      rcases hread : ((tap inner).read t.link.chunkSize).run t with
        ⟨error | bytes, t₁⟩
      · have hfollows := (Follows.failedRead h hprompt hread).1
        cases error <;> exact hfollows
      · rcases hflush : flush inner (t₁.receive bytes).clear with ⟨error | _, t₂⟩
        all_goals
          obtain ⟨hfollows, hflushed⟩ := Follows.flush (h.receive hread).clear hflush
          have hgone : t.gone <+: t₂.gone := by
            rw [hflushed, ← gone_receive hread]
            exact List.prefix_append _ _
          have hfollows : Follows e queued t t₂ := ⟨hfollows.accounts, hfollows.prompt, hgone⟩
          dsimp only
          rw [hflush]
        · exact hfollows
        · exact hfollows.trans (ih hfollows.accounts hfollows.prompt)

theorem follows_flushInput (inner : Channel (StateM σ)) (h : Accounts e queued t)
    (hprompt : Prompt queued t) :
    Follows e queued t (((hold limit).flushInput (tap inner)).run.run t).2 := by
  rw [run_flushInput]
  have hcleared := Follows.clear h hprompt
  have hdrained := follows_discard limit inner limit
    ((hcleared.accounts.inner (inner.readTimeout t.inner).2).inner
      (inner.setReadTimeout (some .zero) (inner.readTimeout t.inner).2).2) hcleared.prompt
  exact hcleared.trans ⟨hdrained.accounts.inner _, hdrained.prompt, hdrained.gone⟩

/-- A timeout that was read can be put back. -/
def KeepsTimeout (inner : Channel (StateM σ)) : Prop :=
  ∀ s s', (inner.readTimeout (inner.setReadTimeout (inner.readTimeout s).1 s').2).1 =
    (inner.readTimeout s).1

theorem timeout_flushInput {inner : Channel (StateM σ)} (hkeeps : KeepsTimeout inner)
    (t : Tapped σ) :
    (inner.readTimeout (((hold limit).flushInput (tap inner)).run.run t).2.inner).1 =
      (inner.readTimeout t.inner).1 := by
  rw [run_flushInput]
  exact hkeeps t.inner _

/-! Everything that an owner who reads does. -/

theorem follows_use (inner : Channel (StateM σ)) (u : Use) (h : Accounts e queued t)
    (hprompt : Prompt queued t) :
    Follows e queued t ((use limit inner u).run t).2 ∧
      ((use limit inner u).run t).2.gone = t.gone ++ ((use limit inner u).run t).1 := by
  cases u with
  | read count =>
      have hread := returns_read limit inner count h hprompt
      exact ⟨hread.follows, hread.gone⟩
  | flushInput =>
      have hflush := follows_flushInput limit inner h hprompt
      obtain ⟨thrown, hthrown⟩ := hflush.gone
      refine ⟨hflush, ?_⟩
      change (((hold limit).flushInput (tap inner)).run.run t).2.gone =
        t.gone ++ (((hold limit).flushInput (tap inner)).run.run t).2.gone.drop t.gone.length
      rw [← hthrown, List.drop_left]

theorem follows_useAll (inner : Channel (StateM σ)) (us : List Use)
    (h : Accounts e queued t) (hprompt : Prompt queued t) :
    Follows e queued t ((useAll limit inner us).run t).2 ∧
      ((useAll limit inner us).run t).2.gone = t.gone ++ ((useAll limit inner us).run t).1 := by
  induction us generalizing t with
  | nil => exact ⟨⟨h, hprompt, List.prefix_rfl⟩, (List.append_nil _).symm⟩
  | cons u us ih =>
      obtain ⟨hfirst, hgone⟩ := follows_use limit inner u h hprompt
      obtain ⟨hrest, hgone'⟩ := ih hfirst.accounts hfirst.prompt
      refine ⟨hfirst.trans hrest, hgone'.trans ?_⟩
      rw [hgone]
      exact List.append_assoc _ _ _

/-- Whatever the inner channel delivers and refuses, and however far calls are followed, the
clean bytes that were returned, thrown away or still wait are those of one decoding of
everything read, in order; the engine is where that decoding leaves it, its events were
reported and its replies sent.  A read that succeeds brings something, and a flush leaves the
timeout as it was. -/
theorem reads_lossless (chunks : Nat) (inner : Channel (StateM σ))
    (hkeeps : KeepsTimeout inner) (e : Engine) (queued : List UInt8) (s : σ) (us : List Use) :
    let run := (useAll chunks inner us).run (start s e queued)
    let t := run.2
    let plain := e.decode t.raw
    (t.link.engine = plain.1 ∧ t.events = plain.2.events) ∧
      run.1 ++ t.link.pending = plain.2.clean ∧
      (t.failed = false → t.written ++ t.link.outbound = queued ++ plain.2.sent) ∧
      (t.link.outbound = [] ∨ t.raw = [] ∧ t.link.outbound = queued) ∧
      (∀ count bytes, (((channel chunks inner).read count).run t).1 = .ok bytes →
        count ≠ 0 → bytes ≠ []) ∧
      (inner.readTimeout (((hold chunks).flushInput (tap inner)).run.run t).2.inner).1 =
        (inner.readTimeout t.inner).1 := by
  intro run t plain
  have hstart : Prompt queued (start s e queued) := Or.inr ⟨rfl, rfl⟩
  obtain ⟨hfollows, hgone⟩ := follows_useAll chunks inner us (accounts_start s e queued) hstart
  have haccounts := hfollows.accounts
  refine ⟨⟨haccounts.engine, haccounts.events⟩, ?_, haccounts.sent, hfollows.prompt, ?_,
    timeout_flushInput chunks hkeeps t⟩
  · rw [← haccounts.clean, hgone]
    rfl
  · intro count
    exact (returns_read chunks inner count haccounts hfollows.prompt).nonempty

/-- A scripted transport by itself. -/
def scripted : Channel (StateM Channel.Scripted) :=
  Channel.Scripted.channel get set

theorem keepsTimeout_scripted : KeepsTimeout scripted := fun _ _ => rfl

/-- A command cut by a failed read, and a carriage return cut from its padding. -/
def broken : Channel.Scripted :=
  { queue := [.ok [65, 255], .error (.transport "reset"), .ok [253, 3], .ok [66, 67, 13],
      .ok [0, 68], .error .timeout, .ok [69]] }

/-- Read by single bytes and by more, with a flush in between. -/
def patient : List Use :=
  [.read 1, .read 8, .read 1, .flushInput, .read 4]

/-- Nothing is lost but what the flush throws away. -/
theorem reads_lossless_interrupted :
    let run := (useAll 8 scripted patient).run (start broken {} [])
    KeepsTimeout scripted ∧ run.1 = [65, 66, 67, 13, 68, 69] ∧ run.2.written = [255, 251, 3] ∧
      run.1 ++ run.2.link.pending = (({} : Engine).decode run.2.raw).2.clean :=
  ⟨keepsTimeout_scripted, by decide +kernel, by decide +kernel,
    (reads_lossless 8 scripted keepsTimeout_scripted {} [] broken patient).2.1⟩

end Tapped

end RemoteConsole.Telnet
