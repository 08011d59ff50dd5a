/-
One side of one option between its two ends: where each end takes it to stand,
and the words about it that are under way in both directions.  Whatever the ends
wish and hear, they stay linked; and what is under way runs out.
-/
import RemoteConsole.Telnet.Negotiation
import Mathlib.Tactic.Common

namespace RemoteConsole.Telnet

/-- The word that a reaction sends, if any: whether it enables. -/
def Reaction.words : Reaction → List Bool
  | .sendEnable => [true]
  | .sendDisable => [false]
  | .updated => []
  | .ignored => []

namespace Standing

/-- Wish the option on or off. -/
def wish (enable : Bool) (s : Standing) : Standing × Reaction :=
  if enable then s.requestEnable else s.requestDisable

/-- Hear a word of the peer. -/
def hear (agree enable : Bool) (s : Standing) : Standing × Reaction :=
  if enable then s.receiveEnable agree else s.receiveDisable

/-- Wish the option on or off, or leave it alone. -/
def obey (s : Standing) : Option Bool → Standing
  | none => s
  | some enable => (s.wish enable).1

/-- What is said of a wish, if one is made. -/
def tells (s : Standing) : Option Bool → List Bool
  | none => []
  | some enable => (s.wish enable).2.words

/-- While an answer is awaited, a wish only waits. -/
theorem words_wish_of_isPending {s : Standing} (h : s.isPending = true) (enable : Bool) :
    (s.wish enable).2.words = [] := by
  cases s <;> cases enable <;> first | rfl | contradiction

/-- Where hearing some words in order leads. -/
def heed (agree : Bool) (s : Standing) : List Bool → Standing
  | [] => s
  | w :: ws => (s.hear agree w).1.heed agree ws

/-- The words with which some words are answered. -/
def answers (agree : Bool) (s : Standing) : List Bool → List Bool
  | [] => []
  | w :: ws => (s.hear agree w).2.words ++ (s.hear agree w).1.answers agree ws

theorem heed_append (agree : Bool) (s : Standing) (v w : List Bool) :
    s.heed agree (v ++ w) = (s.heed agree v).heed agree w := by
  induction v generalizing s with
  | nil => rfl
  | cons x v ih => exact ih (s.hear agree x).1

/-- What hearing one word keeps, hearing any words keeps. -/
theorem heed_induction {P : Standing → Prop} {agree : Bool}
    (hhear : ∀ s w, P s → P (s.hear agree w).1) {s : Standing} (hs : P s) (ws : List Bool) :
    P (s.heed agree ws) := by
  induction ws generalizing s with
  | nil => exact hs
  | cons w ws ih => exact ih (hhear s w hs)

theorem answers_append (agree : Bool) (s : Standing) (v w : List Bool) :
    s.answers agree (v ++ w) = s.answers agree v ++ (s.heed agree v).answers agree w := by
  induction v generalizing s with
  | nil => rfl
  | cons x v ih => simp [answers, heed, ih]

/-- A standing as the wire shows it: a wish that waits for an answer has not been
put there. -/
inductive Phase where
  | off
  | on
  | ending
  | starting
deriving DecidableEq, Repr

def phase : Standing → Phase
  | .off => .off
  | .on => .on
  | .disabling => .ending
  | .disablingThenEnable => .ending
  | .enabling => .starting
  | .enablingThenDisable => .starting

end Standing

/-- What can be under way between two ends, to the second and to the first.  Each
end that awaits something is owed one word, and a settled end is never sent what
it already holds. -/
def underWay : Standing.Phase → Standing.Phase → List (List Bool × List Bool)
  | .off, .off => [([], [])]
  | .off, .on => []
  | .off, .ending => [([false], [])]
  | .off, .starting => [([], [true]), ([false], [])]
  | .on, .off => []
  | .on, .on => [([], [])]
  | .on, .ending => [([], [false])]
  | .on, .starting => [([true], [])]
  | .ending, .off => [([], [false])]
  | .ending, .on => [([false], [])]
  | .ending, .ending => [([false], [false])]
  | .ending, .starting => [([true, false], []), ([], [false, true])]
  | .starting, .off => [([true], []), ([], [false])]
  | .starting, .on => [([], [true])]
  | .starting, .ending => [([], [true, false]), ([false, true], [])]
  | .starting, .starting => [([true], [true]), ([], [false, true]), ([false, true], [])]

/-- Two ends are linked by the words under way from the first and from the
second. -/
def Linked (l r : Standing) (u v : List Bool) : Prop :=
  (u, v) ∈ underWay l.phase r.phase

instance (l r : Standing) (u v : List Bool) : Decidable (Linked l r u v) :=
  inferInstanceAs (Decidable ((u, v) ∈ underWay l.phase r.phase))

namespace Linked

variable {l r : Standing} {u v : List Bool}

theorem symm (h : Linked l r u v) : Linked r l v u := by
  unfold Linked at h ⊢
  generalize l.phase = p at h
  generalize r.phase = q at h
  cases p <;> cases q <;> simp only [underWay, List.mem_cons, List.not_mem_nil, or_false,
    Prod.mk.injEq] at h ⊢ <;> tauto

theorem wish (h : Linked l r u v) (enable : Bool) :
    Linked (l.wish enable).1 r (u ++ (l.wish enable).2.words) v := by
  unfold Linked at h ⊢
  generalize r.phase = q at h
  cases enable with
  | false =>
      cases l <;> cases q <;>
        simp_all [underWay, Standing.wish, Standing.requestDisable, Standing.phase,
          Reaction.words]
  | true =>
      cases l <;> cases q <;>
        simp_all [underWay, Standing.wish, Standing.requestEnable, Standing.phase,
          Reaction.words]
      case off.starting =>
        rcases h with ⟨rfl, rfl⟩ | ⟨rfl, rfl⟩
        · exact Or.inl ⟨rfl, rfl⟩
        · exact Or.inr ⟨rfl, rfl⟩

theorem obey (h : Linked l r u v) (wish : Option Bool) :
    Linked (l.obey wish) r (u ++ l.tells wish) v := by
  cases wish with
  | none => rwa [Standing.tells, List.append_nil]
  | some enable => exact h.wish enable

theorem hear {w : Bool} (h : Linked l r u (w :: v)) (agree : Bool) :
    Linked (l.hear agree w).1 r (u ++ (l.hear agree w).2.words) v := by
  unfold Linked at h ⊢
  generalize r.phase = q at h
  cases agree <;> cases w <;> cases l <;> cases q <;>
    simp_all [underWay, Standing.hear, Standing.receiveEnable, Standing.receiveDisable,
      Standing.phase, Reaction.words]

theorem heed (agree : Bool) (w : List Bool) (h : Linked l r u (w ++ v)) :
    Linked (l.heed agree w) r (u ++ l.answers agree w) v := by
  induction w generalizing l u with
  | nil => simpa [Standing.heed, Standing.answers] using h
  | cons x w ih =>
      have hnext := ih (hear h agree)
      rwa [List.append_assoc] at hnext

/-- Both ends of what nothing is under way about stand alike, and settled. -/
theorem eq_of_nil (h : Linked l r [] []) : l = r ∧ l.isPending = false := by
  cases l <;> cases r <;> simp_all [Linked, underWay, Standing.phase, Standing.isPending]

end Linked

/-! How long it can take until nothing is under way. -/

/-- What a standing can still give rise to. -/
def Standing.weight : Standing → Nat
  | .off => 0
  | .on => 0
  | .disabling => 2
  | .enabling => 2
  | .disablingThenEnable => 4
  | .enablingThenDisable => 4

/-- The words that can still be heard, by both ends together: a word that comes to
a settled end will be answered. -/
def unrest (l r : Standing) (u v : List Bool) : Nat :=
  l.weight + r.weight + (if l.isPending then 0 else v.length) +
    (if r.isPending then 0 else u.length)

theorem unrest_symm (l r : Standing) (u v : List Bool) : unrest l r u v = unrest r l v u := by
  unfold unrest
  omega

namespace Linked

variable {l r : Standing} {u v : List Bool}

theorem unrest_hear {w : Bool} (h : Linked l r u (w :: v)) (agree : Bool) :
    unrest (l.hear agree w).1 r (u ++ (l.hear agree w).2.words) v < unrest l r u (w :: v) := by
  unfold Linked at h
  cases agree <;> cases w <;> cases l <;> cases r <;>
    simp_all [underWay, Standing.hear, Standing.receiveEnable, Standing.receiveDisable,
      Standing.phase, Reaction.words, unrest, Standing.weight, Standing.isPending]

theorem unrest_heed (agree : Bool) (w : List Bool) (h : Linked l r u (w ++ v)) :
    unrest (l.heed agree w) r (u ++ l.answers agree w) v + w.length ≤
      unrest l r u (w ++ v) := by
  induction w generalizing l u with
  | nil => simp [Standing.heed, Standing.answers]
  | cons x w ih =>
      rw [List.cons_append] at h ⊢
      have hfirst := unrest_hear h agree
      have hrest := ih (hear h agree)
      rw [List.append_assoc] at hrest
      change unrest ((l.hear agree x).1.heed agree w) r
        (u ++ ((l.hear agree x).2.words ++ (l.hear agree x).1.answers agree w)) v +
          (w.length + 1) ≤ unrest l r u (x :: (w ++ v))
      omega

end Linked

end RemoteConsole.Telnet
