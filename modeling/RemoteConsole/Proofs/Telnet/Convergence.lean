/-
Left alone, two engines stop talking, and when they have stopped they agree.  How
much can still happen is bounded by what is under way, by what the ends await, and
by what answering will put on the wire.
-/
import RemoteConsole.Proofs.Telnet.Connection
import Mathlib.Algebra.BigOperators.Group.Finset.Basic
import Mathlib.Algebra.Order.BigOperators.Group.Finset
import Mathlib.Data.FinEnum
import Mathlib.Data.Fintype.Prod
import Mathlib.Tactic.Ring

namespace RemoteConsole.Telnet

instance : Fintype OptionCode :=
  Fintype.ofEquiv UInt8 ⟨OptionCode.mk, OptionCode.code, fun _ => rfl, fun _ => rfl⟩

instance : Fintype Side :=
  ⟨{.ours, .theirs}, fun side => by cases side <;> simp⟩

/-- Every side of every option but the timing mark. -/
@[irreducible] def negotiable : Finset (OptionCode × Side) :=
  Finset.univ.filter (·.1 ≠ .timingMark)

theorem mem_negotiable {o : OptionCode} {side : Side} :
    (o, side) ∈ negotiable ↔ o ≠ .timingMark := by
  unfold negotiable
  exact Finset.mem_filter_univ (o, side)

/-- Every word is about some side of some option. -/
theorem countP_isWord_le (ts : List Token) (h : ∀ t ∈ ts, t.Tame) :
    ts.countP Token.isWord ≤ ∑ p ∈ negotiable, (words p.2 p.1 ts).length := by
  induction ts with
  | nil => exact Nat.zero_le _
  | cons t ts ih =>
      have hrest := ih fun t' ht' => h t' (List.mem_cons_of_mem t ht')
      have hsplit : ∀ p : OptionCode × Side, (words p.2 p.1 (t :: ts)).length =
          (words p.2 p.1 [t]).length + (words p.2 p.1 ts).length := by
        intro p
        rw [← List.length_append, ← words_append, List.singleton_append]
      have hfirst : [t].countP Token.isWord ≤ ∑ p ∈ negotiable, (words p.2 p.1 [t]).length := by
        cases t with
        | word side o enable =>
            have ho : (o, side) ∈ negotiable := mem_negotiable.mpr (h _ List.mem_cons_self)
            have hone : (words side o [.word side o enable]).length = 1 := by
              rw [words_word_self]
              rfl
            have hle := Finset.single_le_sum
              (f := fun p => (words p.2 p.1 [.word side o enable]).length)
              (fun _ _ => Nat.zero_le _) ho
            rw [hone] at hle
            exact hle
        | _ => exact Nat.zero_le _
      rw [Finset.sum_congr rfl fun p _ => hsplit p, Finset.sum_add_distrib,
        ← List.singleton_append, List.countP_append]
      exact Nat.add_le_add hfirst hrest

namespace Connection

/-- What can still be said about one side of one option. -/
def unrestOn (c : Connection) (p : OptionCode × Side) : Nat :=
  unrest (c.near.engine.options.standing p.1 p.2) (c.far.engine.options.standing p.1 p.2.other)
    (words p.2.other p.1 c.swap.ahead) (words p.2 p.1 c.ahead)

def unrest (c : Connection) : Nat :=
  ∑ p ∈ negotiable, c.unrestOn p

/-- The requests for a value that are under way. -/
def asks (c : Connection) : Nat :=
  c.ahead.countP Token.isAsk + c.swap.ahead.countP Token.isAsk

/-- No value of either end is longer on the wire. -/
def longest (c : Connection) : Nat :=
  c.near.engine.longest + c.far.engine.longest

/-- The bytes still to be moved: a queued byte is moved twice. -/
def load (c : Connection) : Nat :=
  c.near.wire.length + c.far.wire.length + 2 * (c.near.outbound.length + c.far.outbound.length)

/-- The deliveries that answering one request for a value can cost. -/
def askCost (c : Connection) : Nat :=
  2 * c.longest + 1

/-- The deliveries that hearing one word can cost. -/
def wordCost (c : Connection) : Nat :=
  2 * (9 + c.longest) + c.askCost

/-- No more deliveries than these can follow. -/
def bound (c : Connection) : Nat :=
  c.load + c.askCost * c.asks + c.wordCost * c.unrest

theorem unrestOn_swap (c : Connection) (p : OptionCode × Side) :
    c.swap.unrestOn p = c.unrestOn (p.1, p.2.other) := by
  rw [unrestOn, unrestOn, unrest_symm]
  simp

theorem unrest_swap (c : Connection) : c.swap.unrest = c.unrest := by
  unfold unrest
  refine Finset.sum_nbij' (fun p => (p.1, p.2.other)) (fun p => (p.1, p.2.other)) ?_ ?_ ?_ ?_ ?_
  · rintro ⟨o, side⟩ hp
    rw [mem_negotiable] at hp ⊢
    exact hp
  · rintro ⟨o, side⟩ hp
    rw [mem_negotiable] at hp ⊢
    exact hp
  · simp
  · simp
  · intro p _
    exact c.unrestOn_swap p

theorem bound_swap (c : Connection) : c.swap.bound = c.bound := by
  have hlongest : c.swap.longest = c.longest := Nat.add_comm _ _
  have hasks : c.swap.asks = c.asks := Nat.add_comm _ _
  have hload : c.swap.load = c.load := by
    unfold load
    simp only [near_swap, far_swap]
    omega
  rw [bound, bound, wordCost, wordCost, askCost, askCost, unrest_swap, hlongest, hasks, hload]

/-! Deliveries. -/

/-- A move that delivers something at the near end. -/
def Delivers (c : Connection) : Move → Prop
  | .call _ => False
  | .take => c.near.outbound ≠ []
  | .receive count => c.chunk count ≠ []

/-- The same at either end. -/
def Progresses (c : Connection) : End × Move → Prop
  | (.near, m) => c.Delivers m
  | (.far, m) => c.swap.Delivers m

/-- A run in which every move delivers something. -/
def Deliveries (c : Connection) : List (End × Move) → Prop
  | [] => True
  | m :: ms => c.Progresses m ∧ (c.step m).Deliveries ms

/-- Nothing is under way, and nothing is queued. -/
def Quiet (c : Connection) : Prop :=
  c.near.unread = [] ∧ c.far.unread = []

theorem bound_take {c : Connection} (hout : c.near.outbound ≠ []) :
    (c.act .take).bound < c.bound := by
  have hunrest : (c.act .take).unrest = c.unrest := by
    unfold unrest unrestOn
    rw [ahead_take]
    rfl
  have hasks : (c.act .take).asks = c.asks := by
    unfold asks
    rw [ahead_take]
    rfl
  have hload : (c.act .take).load < c.load := by
    have hpos := List.length_pos_of_ne_nil hout
    simp only [load, act, Party.take, List.length_append, List.length_nil]
    omega
  have hlongest : (c.act .take).longest = c.longest := rfl
  rw [bound, bound, wordCost, wordCost, askCost, askCost, hunrest, hasks, hlongest]
  omega

theorem unrest_receive {c : Connection} (h : c.Attuned) {count : Nat} {us : List Token}
    (hreceipt : c.Receipt count us) :
    (c.act (.receive count)).unrest + (c.heard count).countP Token.isWord ≤ c.unrest := by
  have hside : ∀ p ∈ negotiable, (c.act (.receive count)).unrestOn p +
      (words p.2 p.1 (c.heard count)).length ≤ c.unrestOn p := by
    rintro ⟨o, side⟩ hp
    have ho : o ≠ .timingMark := mem_negotiable.mp hp
    have hlinked := h.linked o ho side
    rw [hreceipt.ahead, words_append] at hlinked
    have hle := hlinked.unrest_heed ((c.near.engine.options.get o).agrees side)
    rw [← hreceipt.heeds.standing o ho side, ← hreceipt.heeds.answers o ho side,
      ← words_append, ← hreceipt.ahead_swap, ← words_append, ← hreceipt.ahead] at hle
    exact hle
  have hsum := Finset.sum_le_sum hside
  rw [Finset.sum_add_distrib] at hsum
  have hwords := countP_isWord_le _ (h.tame_heard count)
  exact Nat.le_trans (Nat.add_le_add_left hwords _) hsum

theorem asks_receive {c : Connection} {count : Nat} {us : List Token}
    (hreceipt : c.Receipt count us) :
    (c.act (.receive count)).asks + (c.heard count).countP Token.isAsk ≤
      c.asks + (c.heard count).countP Token.isWord := by
  have hle := hreceipt.heeds.asks
  rw [asks, asks, hreceipt.ahead_swap, hreceipt.ahead, List.countP_append, List.countP_append]
  omega

theorem longest_receive {c : Connection} {count : Nat} {us : List Token}
    (hreceipt : c.Receipt count us) : (c.act (.receive count)).longest = c.longest := by
  unfold longest
  rw [Engine.longest_congr hreceipt.heeds.settings]
  rfl

theorem load_receive {c : Connection} (h : c.Attuned) {count : Nat} {us : List Token}
    (hreceipt : c.Receipt count us) (hchunk : c.chunk count ≠ []) :
    (c.act (.receive count)).load + 1 ≤ c.load +
      2 * ((c.heard count).countP Token.isWord * (9 + c.longest) +
        (c.heard count).countP Token.isAsk * c.longest) := by
  have hsent := hreceipt.heeds.length (h.tame_heard count)
  have hwords : (c.heard count).countP Token.isWord * (9 + c.near.engine.longest) ≤
      (c.heard count).countP Token.isWord * (9 + c.longest) :=
    Nat.mul_le_mul_left _ (Nat.add_le_add_left (Nat.le_add_right _ _) 9)
  have hasks : (c.heard count).countP Token.isAsk * c.near.engine.longest ≤
      (c.heard count).countP Token.isAsk * c.longest :=
    Nat.mul_le_mul_left _ (Nat.le_add_right _ _)
  have htaken : (c.far.wire.drop count).length + (c.chunk count).length =
      c.far.wire.length := by
    have hlength := congrArg List.length (List.take_append_drop count c.far.wire)
    rw [List.length_append] at hlength
    rw [chunk]
    omega
  have hpos := List.length_pos_of_ne_nil hchunk
  have hout : (c.act (.receive count)).near.outbound.length = c.near.outbound.length +
      (c.near.engine.decode (c.chunk count)).2.sent.length := List.length_append
  have hwire : (c.act (.receive count)).near.wire = c.near.wire := rfl
  have hwire' : (c.act (.receive count)).far.wire = c.far.wire.drop count := rfl
  have hout' : (c.act (.receive count)).far.outbound = c.far.outbound := rfl
  rw [load, load, hout, hwire, hwire', hout']
  omega

theorem bound_receive {c : Connection} (h : c.Attuned) {count : Nat}
    (hchunk : c.chunk count ≠ []) : (c.act (.receive count)).bound < c.bound := by
  obtain ⟨us, hreceipt⟩ := h.receipt count
  have hload := load_receive h hreceipt hchunk
  have hasks := Nat.mul_le_mul_left c.askCost (asks_receive hreceipt)
  have hunrest := Nat.mul_le_mul_left c.wordCost (unrest_receive h hreceipt)
  rw [bound, bound, wordCost, askCost, longest_receive hreceipt, ← askCost, ← wordCost]
  generalize (c.heard count).countP Token.isWord = heard at hload hasks hunrest
  generalize (c.heard count).countP Token.isAsk = asked at hload hasks
  -- each word heard is paid for by the unrest it ends, each request by itself
  have hword : c.wordCost * heard = 2 * (heard * (9 + c.longest)) + c.askCost * heard := by
    unfold wordCost
    ring
  have hask : c.askCost * asked = 2 * (asked * c.longest) + asked := by
    unfold askCost
    ring
  rw [Nat.mul_add, Nat.mul_add] at hasks
  rw [Nat.mul_add] at hunrest
  omega

theorem Delivers.tame {c : Connection} {m : Move} (h : c.Delivers m) : m.Tame := by
  cases m with
  | call => exact h.elim
  | take => trivial
  | receive => trivial

theorem bound_act {c : Connection} (h : c.Attuned) {m : Move} (hm : c.Delivers m) :
    (c.act m).bound < c.bound := by
  cases m with
  | call => exact hm.elim
  | take => exact bound_take hm
  | receive count => exact bound_receive h hm

theorem bound_step {c : Connection} (h : c.Attuned) {m : End × Move} (hm : c.Progresses m) :
    (c.step m).bound < c.bound := by
  obtain ⟨e, m⟩ := m
  cases e with
  | near => exact bound_act h hm
  | far =>
      have hact := bound_act h.swap hm
      rw [bound_swap] at hact
      change (c.swap.act m).swap.bound < c.bound
      rw [bound_swap]
      exact hact

theorem Progresses.tame {c : Connection} {m : End × Move} (h : c.Progresses m) :
    m.2.Tame := by
  obtain ⟨e, m⟩ := m
  cases e with
  | near => exact Delivers.tame h
  | far => exact Delivers.tame h

/-- Nothing but deliveries cannot go on for longer than the bound. -/
theorem length_deliveries {c : Connection} (h : c.Attuned) {ms : List (End × Move)}
    (hms : c.Deliveries ms) : ms.length ≤ c.bound := by
  induction ms generalizing c with
  | nil => exact Nat.zero_le _
  | cons m ms ih =>
      obtain ⟨hm, hrest⟩ := hms
      have hlength := ih (h.step hm.tame) hrest
      have hless := bound_step h hm
      rw [List.length_cons]
      omega

/-- What was taken to be a delivery and delivers nothing changes nothing. -/
theorem act_of_not_delivers {c : Connection} {m : Move} (hcall : ∀ call, m ≠ .call call)
    (hm : ¬c.Delivers m) : c.act m = c := by
  obtain ⟨near, far⟩ := c
  cases m with
  | call call => exact absurd rfl (hcall call)
  | take =>
      obtain ⟨engine, outbound, wire, clean⟩ := near
      obtain rfl : outbound = [] := not_not.mp hm
      simp [act, Party.take]
  | receive count =>
      have hchunk : far.wire.take count = [] := not_not.mp hm
      have hwire : far.wire.drop count = far.wire := by
        have hall := List.take_append_drop count far.wire
        rwa [hchunk, List.nil_append] at hall
      simp [act, Party.moved, hchunk, hwire, Engine.decode]

/-- Deliveries stop only when nothing is left to deliver. -/
theorem quiet_iff (c : Connection) : c.Quiet ↔ ∀ m, ¬c.Progresses m := by
  constructor
  · rintro ⟨hnear, hfar⟩ ⟨e, m⟩ hm
    obtain ⟨hwire, hout⟩ := List.append_eq_nil_iff.mp hnear
    obtain ⟨hwire', hout'⟩ := List.append_eq_nil_iff.mp hfar
    cases e <;> cases m <;>
      simp_all [Progresses, Delivers, chunk]
  · intro h
    have hout : c.near.outbound = [] := not_not.mp (h (.near, .take))
    have hout' : c.far.outbound = [] := not_not.mp (h (.far, .take))
    have hwire' : c.far.wire.take c.far.wire.length = [] :=
      not_not.mp (h (.near, .receive c.far.wire.length))
    have hwire : c.near.wire.take c.near.wire.length = [] :=
      not_not.mp (h (.far, .receive c.near.wire.length))
    rw [List.take_length] at hwire hwire'
    exact ⟨List.append_eq_nil_iff.mpr ⟨hwire, hout⟩, List.append_eq_nil_iff.mpr ⟨hwire', hout'⟩⟩

/-! Agreement. -/

theorem Attuned.agree {c : Connection} (h : c.Attuned) (hquiet : c.Quiet) {o : OptionCode}
    (ho : o ≠ .timingMark) (side : Side) :
    c.near.engine.options.standing o side = c.far.engine.options.standing o side.other ∧
      (c.near.engine.options.standing o side).isPending = false := by
  have hahead : c.ahead = [] := congrArg c.near.engine.reader.tokens hquiet.2
  have hahead' : c.swap.ahead = [] := congrArg c.far.engine.reader.tokens hquiet.1
  have hlinked := h.linked o ho side
  rw [hahead, hahead'] at hlinked
  exact hlinked.eq_of_nil

/-- Whatever two owners have asked for and allowed, deliveries alone come to an end;
and whenever nothing is under way, both ends take every side of every option to
stand alike, and settled. -/
theorem negotiation_converges (near far : Setup) {moves : List (End × Move)}
    (hmoves : ∀ m ∈ moves, m.2.Tame) :
    let c := (start near far).run moves
    (∃ most, ∀ ms, c.Deliveries ms → ms.length ≤ most) ∧
      (c.Quiet → ∀ o, o ≠ .timingMark → ∀ side,
        c.near.engine.options.standing o side =
            c.far.engine.options.standing o side.other ∧
          (c.near.engine.options.standing o side).isPending = false) := by
  intro c
  have hattuned : c.Attuned := (attuned_start near far).run hmoves
  constructor
  · refine ⟨c.bound, ?_⟩
    intro ms hms
    exact length_deliveries hattuned hms
  · intro hquiet o ho side
    exact hattuned.agree hquiet ho side

instance (c : Connection) : Decidable c.Quiet :=
  inferInstanceAs (Decidable (_ ∧ _))

/-- Both ends ask for the same thing at once. -/
theorem negotiation_converges_crossing :
    let asked : List (End × Move) :=
      [(.near, .call (.request .ours .echo true)), (.far, .call (.request .theirs .echo true)),
        (.near, .take), (.far, .take), (.far, .receive 2), (.near, .receive 3),
        (.far, .receive 1)]
    let c := (start {} {}).run asked
    (∀ m ∈ asked, m.2.Tame) ∧ c.Quiet ∧
      (∃ most, ∀ ms, c.Deliveries ms → ms.length ≤ most) ∧
      c.near.engine.options.standing .echo .ours = .on ∧
      c.far.engine.options.standing .echo .theirs = .on := by
  intro asked c
  have htame : ∀ m ∈ asked, m.2.Tame := by decide
  have hquiet : c.Quiet := by decide +kernel
  obtain ⟨hends, hagree⟩ := negotiation_converges {} {} htame
  have hon : c.near.engine.options.standing .echo .ours = .on := by decide +kernel
  have hsame := (hagree hquiet .echo (by decide) .ours).1
  exact ⟨htame, hquiet, hends, hon, hsame.symm.trans hon⟩

end Connection

end RemoteConsole.Telnet
