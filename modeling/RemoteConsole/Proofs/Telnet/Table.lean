/-
What one move does to an option table: it moves one side of one option, and
nothing else.
-/
import RemoteConsole.Proofs.Telnet.Exchange
import RemoteConsole.Telnet.OptionTable

namespace RemoteConsole.Telnet

namespace OptionState

theorem standing_move_of_ne (s : OptionState) {side other : Side} (standing : Standing)
    (h : other ≠ side) : (s.move side standing).standing other = s.standing other := by
  cases side <;> cases other <;> first | rfl | exact absurd rfl h

theorem move_standing (s : OptionState) (side : Side) : s.move side (s.standing side) = s := by
  cases side <;> rfl

end OptionState

namespace OptionTable

/-- The move that a wish of the owner makes, or a word of the peer. -/
theorem apply_wish (enable agree : Bool) (s : Standing) :
    (if enable then Move.requestEnable else Move.requestDisable).apply agree s =
      s.wish enable := by
  cases enable <;> rfl

@[inherit_doc apply_wish] theorem apply_hear (enable agree : Bool) (s : Standing) :
    (if enable then Move.receiveEnable else Move.receiveDisable).apply agree s =
      s.hear agree enable := by
  cases enable <;> rfl

variable (t : OptionTable) (o : OptionCode) (side : Side) (move : Move)

theorem snd_step :
    (t.step o side move).2 =
      (move.apply ((t.get o).agrees side) (t.standing o side)).2 := rfl

theorem standing_step_self :
    (t.step o side move).1.standing o side =
      (move.apply ((t.get o).agrees side) (t.standing o side)).1 := by
  simp [step, standing]

/-- Putting one side somewhere moves no other. -/
theorem standing_reset_of_not (s : Standing) {p : OptionCode} {other : Side}
    (h : ¬(other = side ∧ p = o)) :
    (t.reset o side s).standing p other = t.standing p other := by
  by_cases hp : p = o
  · subst hp
    have hside : other ≠ side := fun hs => h ⟨hs, rfl⟩
    simp [reset, standing, OptionState.standing_move_of_ne _ _ hside]
  · simp [reset, standing, get_set_ne _ _ hp]

theorem standing_step_of_ne {p : OptionCode} {other : Side} (h : ¬(other = side ∧ p = o)) :
    (t.step o side move).1.standing p other = t.standing p other :=
  t.standing_reset_of_not o side _ h

theorem set_get (t : OptionTable) (o : OptionCode) : t.set o (t.get o) = t := by
  simp [set, get]

/-- A move that leaves its side where it stands changes nothing. -/
theorem step_eq_self
    (h : (move.apply ((t.get o).agrees side) (t.standing o side)).1 = t.standing o side) :
    (t.step o side move).1 = t := by
  have hmove := (t.get o).move_standing side
  change t.set o ((t.get o).move side
    (move.apply ((t.get o).agrees side) (t.standing o side)).1) = t
  rw [h, standing, hmove, set_get]

theorem agrees_step (p : OptionCode) (other : Side) :
    ((t.step o side move).1.get p).agrees other = (t.get p).agrees other := by
  by_cases hp : p = o
  · subst hp
    simp [step]
  · simp [step, get_set_ne _ _ hp]

theorem standing_reset_of_ne (s : Standing) {p : OptionCode} (other : Side) (h : p ≠ o) :
    (t.reset o side s).standing p other = t.standing p other :=
  t.standing_reset_of_not o side s fun heq => h heq.2

theorem agrees_reset (s : Standing) (p : OptionCode) (other : Side) :
    ((t.reset o side s).get p).agrees other = (t.get p).agrees other := by
  by_cases hp : p = o
  · subst hp
    simp [reset]
  · simp [reset, get_set_ne _ _ hp]

end OptionTable

end RemoteConsole.Telnet
