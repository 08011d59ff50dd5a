/-
Surroundings that can be relied on.  They stay as is assumed as long as commands do only
what is allowed; and commands that do only what is allowed spare those parts of the memory
that nothing allowed touches.
-/
import RemoteConsole.Proofs.Session.Login

namespace RemoteConsole.Session

variable {ρ : Type}

/-- Worlds stay as is assumed whatever a session asks whose commands do only what is allowed,
and no command that such a world holds does more. -/
structure Host.Stable (base : Host (Around ρ)) (allowed : Action → Prop) (Good : ρ → Prop) :
    Prop where
  ask : ∀ (q : Query) s w, q.Within allowed → Good w → Good (((base.ask q).run s).run w).2
  validate : ∀ username password s w, Good w →
    Good (((base.validate username password).run s).run w).2
  registry : ∀ s w, Good w → ((base.registry.run s).run w).1.Only allowed

/-- A session that keeps its own memory, its queries being those of its surroundings. -/
structure Host.Sits {D : Type} (h : Host (Recorded (Sitting ρ) D)) (base : Host (Around ρ)) :
    Prop where
  result_ask : ∀ q s, (h.ask q s).result = (((base.ask q).run s.state).run s.world).1
  state_ask : ∀ q s,
    (h.ask q s).state = ⟨s.state, (((base.ask q).run s.state).run s.world).2⟩
  state : ∀ s, h.state s = ⟨s.state, s, []⟩
  setState : ∀ t s, h.setState t s = ⟨(), { s with state := t }, []⟩
  setStage : ∀ stage s,
    (h.setStage stage s).state = { s with state := { s.state with stage } }

theorem sits_seated (base : Host (Around ρ)) : base.seated.Sits base where
  result_ask q _ := by cases q <;> rfl
  state_ask q _ := by cases q <;> rfl
  state _ := rfl
  setState _ _ := rfl
  setStage _ _ := rfl

/-- Work that stays in worlds that are as assumed and spares what is seen of the memory, and of
which each deed goes with what is seen. -/
def Spares {β D : Type} (Good : ρ → Prop) (view : State → β) (Fine : β → D → Prop) (α : Type)
    (x : Recorded (Sitting ρ) D α) : Prop :=
  ∀ s, Good s.world → Good (x s).state.world ∧ view (x s).state.state = view s.state ∧
    ∀ d ∈ (x s).deeds, Fine (view s.state) d

section

variable {β D : Type} {Good : ρ → Prop} {view : State → β} {Fine : β → D → Prop}

theorem spares_joins : Joins (Spares Good view Fine) where
  pure _ _ hs := ⟨hs, rfl, fun _ hd => by cases hd⟩
  bind hx hf s hs := by
    obtain ⟨hgood, hview, hdeeds⟩ := hx s hs
    obtain ⟨hgood', hview', hdeeds'⟩ := hf _ _ hgood
    rw [hview] at hview' hdeeds'
    exact ⟨hgood', hview', List.forall_mem_append.mpr ⟨hdeeds, hdeeds'⟩⟩

variable {base : Host (Around ρ)} {h : Host (Recorded (Sitting ρ) D)} {allowed : Action → Prop}

section

variable (hsits : h.Sits base)

include hsits

theorem Host.Sits.change {α : Type} {f : State → α × State}
    (hf : ∀ s, view (f s).2 = view s) : Spares Good view Fine α (h.change f) := by
  intro s hs
  have hrun : h.change f s = ⟨(f s.state).1, { s with state := (f s.state).2 }, []⟩ := by
    rw [Host.change, Recorded.bind_run, hsits.state]
    dsimp only
    rw [Recorded.bind_run, hsits.setState]
    rfl
  rw [hrun]
  exact ⟨hs, hf s.state, fun _ hd => by cases hd⟩

theorem Host.Sits.update {f : State → State} (hf : ∀ s, view (f s) = view s) :
    Spares Good view Fine _ (h.update f) := by
  rw [h.update_eq_change]
  exact hsits.change hf

variable (hstable : base.Stable allowed Good)
  (hfine : ∀ q s, ∀ d ∈ (h.ask q s).deeds, q.Within allowed → Fine (view s.state) d)

include hstable hfine

/-- Commands spare what is seen of the memory if that is not whether typing is sent back. -/
theorem Host.Sits.bears (hecho : ∀ s enabled, view { s with requireEcho := enabled } = view s) :
    h.Bears allowed (fun _ => True) (Spares Good view Fine) where
  toJoins := spares_joins
  ask q hq s hs := by
    rw [hsits.state_ask]
    exact ⟨hstable.ask q _ _ hq hs, rfl, fun d hd => hfine q s d hd hq⟩
  state hf s hs := by
    rw [Recorded.bind_run, hsits.state]
    exact hf s.state trivial s hs
  registry := by
    intro α f hf s hs
    have hconsult : Spares Good view Fine _ (h.ask .registry) := fun s hs => by
      rw [hsits.state_ask]
      exact ⟨hstable.ask .registry _ _ trivial hs, rfl, fun d hd => hfine .registry s d hd trivial⟩
    have honly : (h.registry s).result.Only allowed := by
      have hresult := hsits.result_ask .registry s
      exact hresult ▸ hstable.registry _ _ hs
    obtain ⟨hgood, hview, hdeeds⟩ := hconsult s hs
    obtain ⟨hgood', hview', hdeeds'⟩ := hf _ honly _ hgood
    rw [hview] at hview' hdeeds'
    exact ⟨hgood', hview', List.forall_mem_append.mpr ⟨hdeeds, hdeeds'⟩⟩
  setRequireEcho enabled _ := hsits.update fun s => hecho s enabled

end

theorem Host.Sits.setStage_spares (hsits : h.Sits base)
    (hstage : ∀ s stage, view { s with stage } = view s)
    (hfine : ∀ stage s, ∀ d ∈ (h.setStage stage s).deeds, Fine (view s.state) d)
    (stage : Stage) : Spares Good view Fine _ (h.setStage stage) := by
  intro s hs
  refine ⟨?_, ?_, hfine stage s⟩ <;> rw [hsits.setStage]
  · exact hs
  · exact hstage s.state stage

theorem Host.Sits.validate_spares (hsits : h.Sits base) (hstable : base.Stable allowed Good)
    (hfine : ∀ username password s, ∀ d ∈ (h.validate username password s).deeds,
      Fine (view s.state) d)
    (username password : String) : Spares Good view Fine _ (h.validate username password) := by
  intro s hs
  have hstate : (h.validate username password s).state =
      ⟨s.state, (((base.validate username password).run s.state).run s.world).2⟩ :=
    hsits.state_ask (.validate username password) s
  refine ⟨?_, ?_, hfine username password s⟩ <;> rw [hstate]
  exact hstable.validate username password _ _ hs

end

/-! A session alone at a desk. -/

namespace Desk

/-- The commands of a desk do only what is allowed, and the transport is open and takes
everything as long as no command may stop the session. -/
def Holds (allowed : Action → Prop) (d : Desk) : Prop :=
  d.registry.Only allowed ∧ (¬ allowed .stop → d.Ready)

theorem stable_around {d : Desk} (hplain : d.link = none) (allowed : Action → Prop) :
    d.around.Stable allowed (Holds allowed) := by
  have hchannel : d.around.channel = wire.map fun work _ => work := by
    simp [around, Host.map, host, channel, hplain]
  refine ⟨fun q s w hq hw => ?_, fun _ _ _ _ hw => hw, fun _ _ hw => hw.1⟩
  cases q with
  | read count => cases hq
  | write bytes =>
      rw [Host.ask, hchannel]
      refine ⟨hw.1, fun hstop => ?_⟩
      obtain ⟨hopen, hfailures⟩ := hw.2 hstop
      have hwrite : w.transport.write bytes = (.ok (), w.transport.record (.wrote bytes)) := by
        simp [Channel.Scripted.write, hopen, hfailures]
      change Ready { w with transport := (w.transport.write bytes).2 }
      rw [hwrite]
      exact ⟨hopen, hfailures⟩
  | close =>
      rw [Host.ask, hchannel]
      exact ⟨hw.1, fun hstop => absurd hq hstop⟩
  | isOpen =>
      rw [Host.ask, hchannel]
      exact hw
  | setLocalEcho enabled =>
      rw [Host.ask, hchannel]
      exact hw
  | validate username password => cases hq
  | setRegistry registry => exact ⟨hq, hw.2⟩
  | registry | note n | count metric | awaitEnd | sleep time | broadcast text | collect
  | removeSession i => exact hw

end Desk

end RemoteConsole.Session
