/-
Requests that fail.  One that finds the transport closed has not been made, and may be made
again.  One that cannot be written has been made as far as the option table knows: what it
had to say is gone, and no request for its side says it again.
-/
import RemoteConsole.Proofs.Telnet.Lossless
import RemoteConsole.Proofs.Telnet.Turns

namespace RemoteConsole.Telnet

namespace Standing

/-- While an answer is awaited, a wish leaves it awaited. -/
theorem isPending_wish {s : Standing} (h : s.isPending = true) (enable : Bool) :
    (s.wish enable).1.isPending = true := by
  cases s <;> cases enable <;> first | rfl | contradiction

/-- A wish that says something is the first of its kind: an answer is awaited from now on,
and the same wish would change nothing. -/
theorem wish_of_words_ne_nil {s : Standing} {enable : Bool}
    (h : (s.wish enable).2.words ≠ []) :
    s.isPending = false ∧ (s.wish enable).1.isPending = true ∧
      ((s.wish enable).1.wish enable).2 = .ignored := by
  cases s <;> cases enable <;> first | exact ⟨rfl, rfl, rfl⟩ | contradiction

end Standing

namespace Engine

/-- What is said of a wish. -/
def tells (e : Engine) (side : Side) (o : OptionCode) (enable : Bool) : List UInt8 :=
  (e.call (.request side o enable)).2.sent

theorem tells_of_isPending {e : Engine} {side : Side} {o : OptionCode}
    (h : e.isPending o side = true) (enable : Bool) : e.tells side o enable = [] := by
  rw [tells, call_request, reaction_wished]
  exact reactionBytes_eq_nil (Standing.words_wish_of_isPending h enable) side o

theorem isPending_request {e : Engine} {side : Side} {o : OptionCode}
    (h : e.isPending o side = true) (enable : Bool) :
    (e.request side o enable).1.isPending o side = true := by
  change ((e.wished side o enable).1.standing o side).isPending = true
  rw [standing_wished]
  exact Standing.isPending_wish h enable

/-- Once a wish has been said, an answer is awaited, and the same wish would change nothing. -/
theorem request_of_tells_ne_nil {e : Engine} {side : Side} {o : OptionCode} {enable : Bool}
    (h : e.tells side o enable ≠ []) :
    e.isPending o side = false ∧ (e.request side o enable).1.isPending o side = true ∧
      ((e.request side o enable).1.request side o enable).2.2 = false := by
  have hwords : ((e.options.standing o side).wish enable).2.words ≠ [] := by
    intro hnone
    apply h
    rw [tells, call_request, reaction_wished]
    exact reactionBytes_eq_nil hnone side o
  obtain ⟨hsettled, hpending, hagain⟩ := Standing.wish_of_words_ne_nil hwords
  refine ⟨hsettled, ?_, ?_⟩
  · change ((e.wished side o enable).1.standing o side).isPending = true
    rwa [standing_wished]
  · change decide (((e.request side o enable).1.wished side o enable).2 ≠ .ignored) = false
    rw [reaction_wished]
    change decide ((((e.wished side o enable).1.standing o side).wish enable).2 ≠ .ignored) = false
    rw [standing_wished, hagain]
    rfl

end Engine

namespace Tapped

variable {σ : Type}

/-- Wish one side of an option on or off. -/
def request (inner : Channel (StateM σ)) (side : Side) (o : OptionCode) (enable : Bool)
    (t : Tapped σ) : Except Error Bool × Tapped σ :=
  ((hold 0).request (tap inner) side o enable).run.run t

/-- The request has been made, and what it has to say waits for the peer. -/
def asked (t : Tapped σ) (side : Side) (o : OptionCode) (enable : Bool) : Tapped σ :=
  { t with
    link :=
      { t.link with
        engine := (t.link.engine.request side o enable).1
        outbound := t.link.outbound ++ t.link.engine.tells side o enable } }

/-- The inner channel has been asked whether it is open. -/
def probed (inner : Channel (StateM σ)) (t : Tapped σ) : Tapped σ :=
  { t with inner := (inner.isOpen t.inner).2 }

theorem run_act_request (t : Tapped σ) (side : Side) (o : OptionCode) (enable : Bool) :
    ((hold 0).act (·.request side o enable)).run t =
      ((t.link.engine.request side o enable).2.2, t.asked side o enable) := by
  let next := t.link.engine.request side o enable
  change (next.2.2, ({ t.setLink (t.link.absorb next.1 next.2.1) with
    events := t.events ++ [] } : Tapped σ)) = (next.2.2, t.asked side o enable)
  simp only [setLink, Link.absorb, asked, Nat.sub_self, List.take_zero, List.append_nil]
  rfl

theorem request_eq (inner : Channel (StateM σ)) (side : Side) (o : OptionCode) (enable : Bool)
    (t : Tapped σ) :
    request inner side o enable t =
      if (inner.isOpen t.inner).1 = true then
        match flush inner ((t.probed inner).asked side o enable) with
        | (.error e, t') => (.error (.channel e), t')
        | (.ok (), t') => (.ok (t.link.engine.request side o enable).2.2, t')
      else (.error .notOpen, t.probed inner) := by
  have hensure : (LinkHold.ensureOpen (tap inner)).run.run t =
      (if (inner.isOpen t.inner).1 = true then .ok () else .error .notOpen, t.probed inner) := by
    change (ExceptT.run (if !(inner.isOpen t.inner).1 then throw Error.notOpen else pure () :
      Attempt (StateM (Tapped σ)) _)).run (t.probed inner) = _
    cases (inner.isOpen t.inner).1 <;> rfl
  rw [request, LinkHold.request, LinkHold.negotiate, ExceptT.run_bind, StateT.run_bind, hensure]
  split
  · -- the table moves before the queue is written, so a failed write comes too late for it
    let asked : Tapped σ := (t.probed inner).asked side o enable
    let result := (t.link.engine.request side o enable).2.2
    have hact := run_act_request (t.probed inner) side o enable
    have hflush : ((hold 0).flush (tap inner)).run asked = flush inner asked := rfl
    change (ExceptT.run (do
      let result ← liftM ((hold 0).act (·.request side o enable))
      LinkHold.below ((hold 0).flush (tap inner))
      return result : Attempt (StateM (Tapped σ)) Bool)).run (t.probed inner) = _
    rw [ExceptT.run_bind, ExceptT.run_liftM, bind_map_left, StateT.run_bind, hact]
    change (LinkHold.below ((hold 0).flush (tap inner)) >>= fun _ => pure result).run.run asked = _
    rw [ExceptT.run_bind, LinkHold.below, ExceptT.run_bind, ExceptT.run_liftM, bind_map_left,
      bind_assoc, StateT.run_bind, hflush]
    rcases flush inner asked with ⟨_ | _, t'⟩ <;> rfl
  · rfl

/-- The request has been made, as far as the option table knows. -/
def made (inner : Channel (StateM σ)) (side : Side) (o : OptionCode) (enable : Bool)
    (t : Tapped σ) : Tapped σ :=
  { t.probed inner with
    link := { t.link with engine := (t.link.engine.request side o enable).1 } }

/-- What a request comes to if nothing else waits for the peer. -/
inductive Outcome (inner : Channel (StateM σ)) (side : Side) (o : OptionCode) (enable : Bool)
    (t : Tapped σ) : Except Error Bool × Tapped σ → Prop where
  | refused (hclosed : (inner.isOpen t.inner).1 = false) :
      Outcome inner side o enable t (.error .notOpen, t.probed inner)
  | silent (hopen : (inner.isOpen t.inner).1 = true)
      (hnothing : t.link.engine.tells side o enable = []) :
      Outcome inner side o enable t
        (.ok (t.link.engine.request side o enable).2.2, t.made inner side o enable)
  | said {s : σ} (hopen : (inner.isOpen t.inner).1 = true)
      (hsaid : t.link.engine.tells side o enable ≠ [])
      (hwrite : inner.write (t.link.engine.tells side o enable) (t.probed inner).inner =
        (.ok (), s)) :
      Outcome inner side o enable t
        (.ok (t.link.engine.request side o enable).2.2,
          { t.made inner side o enable with
            inner := s
            written := t.written ++ t.link.engine.tells side o enable })
  | lost {s : σ} {cause : Channel.Error} (hopen : (inner.isOpen t.inner).1 = true)
      (hsaid : t.link.engine.tells side o enable ≠ [])
      (hwrite : inner.write (t.link.engine.tells side o enable) (t.probed inner).inner =
        (.error cause, s)) :
      Outcome inner side o enable t
        (.error (.channel cause),
          { t.made inner side o enable with inner := s, failed := true })

theorem run_write_tap {inner : Channel (StateM σ)} {bytes : List UInt8} {t : Tapped σ}
    {result : Except Channel.Error Unit} {s : σ} (h : inner.write bytes t.inner = (result, s)) :
    ((tap inner).write bytes).run t = (result, { t with inner := s }.wroteTo bytes result) := by
  change ((inner.write bytes t.inner).1, { t with inner := (inner.write bytes t.inner).2 }.wroteTo
    bytes (inner.write bytes t.inner).1) = _
  rw [h]

theorem outcome_request (inner : Channel (StateM σ)) (side : Side) (o : OptionCode)
    (enable : Bool) {t : Tapped σ} (hqueue : t.link.outbound = []) :
    Outcome inner side o enable t (request inner side o enable t) := by
  rw [request_eq]
  cases hopen : (inner.isOpen t.inner).1 with
  | false => exact .refused hopen
  | true =>
      let bytes := t.link.engine.tells side o enable
      let next := (t.probed inner).asked side o enable
      have houtbound : next.link.outbound = bytes := by
        change t.link.outbound ++ bytes = bytes
        rw [hqueue, List.nil_append]
      have hmade : { next with link := { next.link with outbound := [] } } =
          t.made inner side o enable := by
        rw [made, ← hqueue]
        rfl
      change Outcome inner side o enable t (match flush inner next with
        | (.error e, t') => (.error (.channel e), t')
        | (.ok (), t') => (.ok (t.link.engine.request side o enable).2.2, t'))
      rw [flush_eq, houtbound, hmade]
      by_cases hbytes : bytes = []
      · have hnext : next = t.made inner side o enable := by
          rw [← hmade, ← hbytes, ← houtbound]
        rw [if_pos hbytes, hnext]
        exact .silent hopen hbytes
      · rw [if_neg hbytes]
        rcases hwrite : inner.write bytes (t.made inner side o enable).inner with ⟨cause | _, s⟩
        · rw [run_write_tap hwrite]
          exact .lost hopen hbytes hwrite
        · rw [run_write_tap hwrite]
          exact .said hopen hbytes hwrite

/-! After a request has failed. -/

/-- Repeating a request once the inner channel takes it again writes what it has to say. -/
def Repeatable (inner : Channel (StateM σ)) (side : Side) (o : OptionCode) (enable : Bool)
    (bytes : List UInt8) (t : Tapped σ) : Prop :=
  ∀ s s', (inner.isOpen s).1 = true → inner.write bytes (inner.isOpen s).2 = (.ok (), s') →
    (request inner side o enable { t with inner := s }).2.written = t.written ++ bytes

/-- Make one request for a side after another, each with the inner channel in a state of its
own. -/
def insist (inner : Channel (StateM σ)) (side : Side) (o : OptionCode) (t : Tapped σ) :
    List (σ × Bool) → Tapped σ
  | [] => t
  | (s, enable) :: wishes =>
      insist inner side o (request inner side o enable { t with inner := s }).2 wishes

/-- A request that the peer never hears of: repeated it is taken for one that changes nothing,
and no request for its side is ever written. -/
structure Swallowed (inner : Channel (StateM σ)) (side : Side) (o : OptionCode) (enable : Bool)
    (t : Tapped σ) : Prop where
  ignored : ∀ s, (inner.isOpen s).1 = true →
    (request inner side o enable { t with inner := s }).1 = .ok false
  unsaid : ∀ wishes, (insist inner side o t wishes).written = t.written

/-- An answer is awaited that nothing under way can bring. -/
structure Waits (side : Side) (o : OptionCode) (t : Tapped σ) : Prop where
  queue : t.link.outbound = []
  pending : t.link.engine.isPending o side = true

/-- While an answer is awaited a request writes nothing, and leaves it awaited. -/
theorem Waits.request {inner : Channel (StateM σ)} {side : Side} {o : OptionCode} {t : Tapped σ}
    (h : t.Waits side o) (enable : Bool) :
    ((request inner side o enable t).2).Waits side o ∧
      (Tapped.request inner side o enable t).2.written = t.written := by
  have hnothing := Engine.tells_of_isPending h.pending enable
  have houtcome := outcome_request inner side o enable h.queue
  generalize Tapped.request inner side o enable t = run at houtcome ⊢
  cases houtcome with
  | refused _ => exact ⟨⟨h.queue, h.pending⟩, rfl⟩
  | silent _ _ => exact ⟨⟨h.queue, Engine.isPending_request h.pending enable⟩, rfl⟩
  | said _ hsaid _ => contradiction
  | lost _ hsaid _ => contradiction

theorem Waits.insist {inner : Channel (StateM σ)} {side : Side} {o : OptionCode} {t : Tapped σ}
    (h : t.Waits side o) (wishes : List (σ × Bool)) :
    (insist inner side o t wishes).written = t.written := by
  induction wishes generalizing t with
  | nil => rfl
  | cons wish wishes ih =>
      obtain ⟨s, enable⟩ := wish
      have hs : { t with inner := s }.Waits side o := ⟨h.queue, h.pending⟩
      obtain ⟨hwaits, hwritten⟩ := hs.request enable
      exact (ih hwaits).trans hwritten

/-- With nothing else to write, a request is written as soon as it can be. -/
theorem repeatable (inner : Channel (StateM σ)) (side : Side) (o : OptionCode) (enable : Bool)
    {t : Tapped σ} (hqueue : t.link.outbound = []) :
    Repeatable inner side o enable (t.link.engine.tells side o enable) t := by
  intro s s' hopen hwrite
  let next : Tapped σ := { t with inner := s }
  have houtcome : Outcome inner side o enable next (request inner side o enable next) :=
    outcome_request inner side o enable hqueue
  change (request inner side o enable next).2.written =
    t.written ++ next.link.engine.tells side o enable
  generalize request inner side o enable next = run at houtcome ⊢
  cases houtcome with
  | refused hclosed =>
      have hboth : true = false := hopen.symm.trans hclosed
      contradiction
  | silent _ hnothing =>
      rw [hnothing, List.append_nil]
      rfl
  | said _ _ _ => rfl
  | lost _ _ hlost => cases hwrite.symm.trans hlost

/-- A request that cannot be written is swallowed. -/
theorem swallowed_made (inner : Channel (StateM σ)) {side : Side} {o : OptionCode}
    {enable : Bool} {t t' : Tapped σ} (hlink : t'.link = (t.made inner side o enable).link)
    (hqueue : t.link.outbound = []) (hsaid : t.link.engine.tells side o enable ≠ []) :
    Swallowed inner side o enable t' := by
  obtain ⟨-, hpending, hagain⟩ := Engine.request_of_tells_ne_nil hsaid
  have hwaits : t'.Waits side o := by
    constructor <;> rw [hlink]
    · exact hqueue
    · exact hpending
  refine ⟨fun s hopen => ?_, hwaits.insist⟩
  -- whatever the inner channel does, there is nothing to write
  let next : Tapped σ := { t' with inner := s }
  have hnothing := Engine.tells_of_isPending hwaits.pending enable
  have houtcome : Outcome inner side o enable next (request inner side o enable next) :=
    outcome_request inner side o enable hwaits.queue
  change (request inner side o enable next).1 = .ok false
  generalize request inner side o enable next = run at houtcome ⊢
  cases houtcome with
  | refused hclosed =>
      have hboth : true = false := hopen.symm.trans hclosed
      contradiction
  | silent _ _ =>
      change Except.ok (t'.link.engine.request side o enable).2.2 = _
      rw [hlink]
      exact congrArg Except.ok hagain
  | said _ hsaid _ => contradiction
  | lost _ hsaid _ => contradiction

/-- A failed request leaves the option table alone, or something to be written, just if the
inner channel was closed.  Then nothing has changed and the request may be repeated;
otherwise it was made and could not be written, and the peer never hears of it. -/
theorem request_kept_iff_refused (inner : Channel (StateM σ)) (side : Side) (o : OptionCode)
    (enable : Bool) (t : Tapped σ) (hqueue : t.link.outbound = []) {error : Error}
    (hfailed : (request inner side o enable t).1 = .error error) :
    let t' := (request inner side o enable t).2
    let bytes := t.link.engine.tells side o enable
    (t'.link.engine.options = t.link.engine.options ∨ t'.link.outbound ≠ [] ↔
        (inner.isOpen t.inner).1 = false) ∧
      ((inner.isOpen t.inner).1 = false →
        error = .notOpen ∧ t' = t.probed inner ∧ Repeatable inner side o enable bytes t') ∧
      ((inner.isOpen t.inner).1 = true →
        (∃ cause, error = .channel cause ∧
          (inner.write bytes (t.probed inner).inner).1 = .error cause) ∧
          bytes ≠ [] ∧ t'.written = t.written ∧ Swallowed inner side o enable t') := by
  intro t' bytes
  have houtcome : Outcome inner side o enable t (.error error, t') := by
    rw [← hfailed]
    exact outcome_request inner side o enable hqueue
  clear_value t'
  cases houtcome with
  | refused hclosed =>
      have hrepeatable : Repeatable inner side o enable bytes (t.probed inner) :=
        repeatable inner side o enable hqueue
      refine ⟨iff_of_true (Or.inl rfl) hclosed, fun _ => ⟨rfl, rfl, hrepeatable⟩, fun hopen => ?_⟩
      rw [hclosed] at hopen
      contradiction
  | lost hopen hsaid hwrite =>
      obtain ⟨hsettled, hpending, -⟩ := Engine.request_of_tells_ne_nil hsaid
      -- an answer is awaited from now on, and none was before
      have hmoved : (t.link.engine.request side o enable).1.options ≠ t.link.engine.options := by
        intro hsame
        rw [Engine.isPending, hsame] at hpending
        exact absurd (hpending.symm.trans hsettled) (by decide)
      have hcause := congrArg Prod.fst hwrite
      refine ⟨iff_of_false ?_ (by simp [hopen]), fun hclosed => ?_, fun _ =>
        ⟨⟨_, rfl, hcause⟩, hsaid, rfl, swallowed_made inner rfl hqueue hsaid⟩⟩
      · rintro (hsame | hleft)
        · exact hmoved hsame
        · exact hleft hqueue
      · rw [hclosed] at hopen
        contradiction

/-- The first command of a fresh channel, over a transport whose next write fails. -/
theorem request_kept_iff_refused_unwritten :
    let t := start { failures := 1 } {} []
    let failed := request scripted .theirs .echo true t
    t.link.outbound = [] ∧
      failed.1 = .error (.channel Channel.Scripted.writeFailure) ∧ failed.2.written = [] ∧
      Swallowed scripted .theirs .echo true failed.2 := by
  intro t failed
  have hqueue : t.link.outbound = [] := rfl
  have hopen : (scripted.isOpen t.inner).1 = true := rfl
  have hfailed : failed.1 = .error (.channel Channel.Scripted.writeFailure) := by
    decide +kernel
  obtain ⟨-, -, hlost⟩ := request_kept_iff_refused scripted .theirs .echo true t hqueue hfailed
  obtain ⟨-, -, hwritten, hswallowed⟩ := hlost hopen
  exact ⟨hqueue, hfailed, hwritten, hswallowed⟩

/-- The option table has moved, nothing is queued, and the request made again once the
transport works is answered as redundant, with nothing written. -/
theorem request_swallowed :
    let t := start { failures := 1 } {} []
    let failed := request scripted .theirs .echo true t
    let again := request scripted .theirs .echo true failed.2
    t.link.outbound = [] ∧
      failed.1 = .error (.channel Channel.Scripted.writeFailure) ∧
      failed.2.link.engine.options ≠ t.link.engine.options ∧ failed.2.link.outbound = [] ∧
      failed.2.inner.isOpen = true ∧ failed.2.inner.failures = 0 ∧
      again.1 = .ok false ∧ again.2.written = [] := by
  intro t failed again
  have hbefore : t.link.engine.options.standing .echo .theirs = .off := by decide +kernel
  have hafter : failed.2.link.engine.options.standing .echo .theirs = .enabling := by
    decide +kernel
  refine ⟨rfl, by decide +kernel, ?_, by decide +kernel, by decide +kernel, by decide +kernel,
    by decide +kernel, by decide +kernel⟩
  intro hsame
  rw [hsame, hbefore] at hafter
  contradiction

end Tapped

end RemoteConsole.Telnet
