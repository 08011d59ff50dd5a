/-
Channels that are closed for good.  Nothing is read from a closed channel or written to it,
and Telnet over a channel is closed with it, whatever it has decoded.
-/
import Mathlib.Tactic.Common
import RemoteConsole.Channel.Scripted
import RemoteConsole.Channel.Telnet

namespace RemoteConsole

variable {ρ : Type}

/-- To close a channel shuts it, and a channel that is shut stays so, counts as closed, and
neither gives nor takes anything. -/
structure Channel.Closes (c : Channel (StateM ρ)) (Shut : ρ → Prop) : Prop where
  close : ∀ w, Shut (c.close.run w).2
  isOpen : ∀ w, Shut w → (c.isOpen.run w).1 = false ∧ Shut (c.isOpen.run w).2
  read : ∀ count w, Shut w →
    (∃ e, ((c.read count).run w).1 = .error e) ∧ Shut ((c.read count).run w).2
  write : ∀ bytes w, Shut w →
    (∃ e, ((c.write bytes).run w).1 = .error e) ∧ Shut ((c.write bytes).run w).2
  setLocalEcho : ∀ enabled w, Shut w → Shut ((c.setLocalEcho enabled).run w).2

section

variable {c : Channel (StateM ρ)} {Shut : ρ → Prop} (hcloses : c.Closes Shut)

include hcloses

theorem Channel.Closes.run_isOpen {w : ρ} (hw : Shut w) :
    ∃ w', Shut w' ∧ c.isOpen.run w = (false, w') := by
  obtain ⟨hopen, hshut⟩ := hcloses.isOpen w hw
  exact ⟨_, hshut, Prod.ext hopen rfl⟩

theorem Channel.Closes.run_request (hold : Telnet.LinkHold (StateM ρ)) (side : Telnet.Side)
    (o : Telnet.OptionCode) (enable : Bool) {w : ρ} (hw : Shut w) :
    ∃ w', Shut w' ∧ (hold.request c side o enable).run.run w = (.error .notOpen, w') := by
  obtain ⟨w', hshut, hopen⟩ := hcloses.run_isOpen hw
  have hensure : (Telnet.LinkHold.ensureOpen c).run.run w = (.error .notOpen, w') := by
    rw [Telnet.LinkHold.ensureOpen, ExceptT.run_bind, StateT.run_bind, ExceptT.run_liftM,
      StateT.run_map, hopen]
    rfl
  refine ⟨w', hshut, ?_⟩
  rw [Telnet.LinkHold.request, Telnet.LinkHold.negotiate, ExceptT.run_bind, StateT.run_bind,
    hensure]
  rfl

/-- Telnet looks whether the channel beneath it is open before it does anything. -/
theorem Channel.Closes.telnet (hold : Telnet.LinkHold (StateM ρ)) :
    (hold.channel c).Closes Shut where
  close := hcloses.close
  isOpen := hcloses.isOpen
  read count w hw := by
    obtain ⟨w', hshut, hopen⟩ := hcloses.run_isOpen hw
    have hread : ((hold.channel c).read count).run w = (.error .notOpen, w') := by
      simp only [Telnet.LinkHold.channel, StateT.run_bind, hopen]
      rfl
    rw [hread]
    exact ⟨⟨_, rfl⟩, hshut⟩
  write bytes w hw := by
    obtain ⟨w', hshut, hopen⟩ := hcloses.run_isOpen hw
    have hwrite : ((hold.channel c).write bytes).run w = (.error .notOpen, w') := by
      simp only [Telnet.LinkHold.channel, StateT.run_bind, hopen]
      rfl
    rw [hwrite]
    exact ⟨⟨_, rfl⟩, hshut⟩
  setLocalEcho enabled w hw := by
    obtain ⟨w', hshut, hrequest⟩ := hcloses.run_request hold .ours .echo (!enabled) hw
    simp only [Telnet.LinkHold.channel, StateT.run_bind, hrequest]
    exact hshut

end

/-- A scripted transport closes for good. -/
theorem Channel.Scripted.closes (get : ρ → Channel.Scripted) (set : Channel.Scripted → ρ → ρ)
    (hget : ∀ t w, get (set t w) = t) :
    (Channel.Scripted.channel (fun w => (get w, w)) fun t w => ((), set t w)).Closes
      fun w => (get w).isOpen = false where
  close w := by
    change (get (set (get w).close w)).isOpen = false
    rw [hget]
    rfl
  isOpen w hw := ⟨hw, hw⟩
  read count w hw := by
    have hread : (get w).read count = (.error .notOpen, get w) := if_pos hw
    change (∃ e, ((get w).read count).1 = .error e) ∧
      (get (set ((get w).read count).2 w)).isOpen = false
    rw [hread, hget]
    exact ⟨⟨_, rfl⟩, hw⟩
  write bytes w hw := by
    have hwrite : (get w).write bytes = (.error .notOpen, get w) := if_pos hw
    change (∃ e, ((get w).write bytes).1 = .error e) ∧
      (get (set ((get w).write bytes).2 w)).isOpen = false
    rw [hwrite, hget]
    exact ⟨⟨_, rfl⟩, hw⟩
  setLocalEcho enabled w hw := by
    change (get (set ((get w).record (.setEcho enabled)) w)).isOpen = false
    rw [hget]
    exact hw

end RemoteConsole
