/-
A session with a record of every query, of the memory it was made with, and of what was told
in reply.
-/
import RemoteConsole.Proofs.Channel.Closing
import RemoteConsole.Proofs.Session.Surroundings

namespace RemoteConsole.Session

variable {ρ : Type}

/-- A moment in the life of a session. -/
inductive Moment where
  /-- It asked something of its surroundings and was told something, its memory being this. -/
  | asked (memory : State) (q : Query) (reply : q.Reply)
  | entered (memory : State) (stage : Stage)

/-- How a call failed, if it did. -/
def failureOf {α : Type} : Except Channel.Error α → Option Channel.Error
  | .ok _ => none
  | .error e => some e

namespace Moment

def memory : Moment → State
  | asked memory _ _ | entered memory _ => memory

def query? : Moment → Option Query
  | asked _ q _ => some q
  | entered _ _ => none

/-- How the channel failed the session, if it did. -/
def failure? : Moment → Option Channel.Error
  | asked _ (.read _) result => failureOf result
  | asked _ (.write _) result => failureOf result
  | asked _ (.setLocalEcho _) result => failureOf result
  | _ => none

/-- Whether bytes came or went. -/
def isTraffic : Moment → Bool
  | asked _ (.read _) (Except.ok _) => true
  | asked _ (.write _) (Except.ok _) => true
  | _ => false

def isRead : Moment → Bool
  | asked _ (.read _) _ => true
  | _ => false

def isClose : Moment → Bool
  | asked _ .close _ => true
  | _ => false

end Moment

/-- What a session does in its world, with a record of its moments. -/
abbrev Traced (ρ : Type) := Recorded (Sitting ρ) Moment

/-- Let the world do something. -/
def aside {α : Type} (work : Around ρ α) : Traced ρ α := fun s =>
  ⟨((work.run s.state).run s.world).1, ⟨s.state, ((work.run s.state).run s.world).2⟩, []⟩

/-- Ask the world something. -/
def asking (base : Host (Around ρ)) (q : Query) : Traced ρ q.Reply := fun s =>
  let told := ((base.ask q).run s.state).run s.world
  ⟨told.1, ⟨s.state, told.2⟩, [.asked s.state q told.1]⟩

/-- The surroundings of a session that keeps its own memory, with a record of its moments. -/
def Host.traced (base : Host (Around ρ)) : Host (Traced ρ) where
  id := base.id
  config := base.config
  hooks := base.hooks
  bounds := base.bounds
  channel :=
    { base.channel.map aside with
      read := fun count => asking base (.read count)
      write := fun bytes => asking base (.write bytes)
      close := asking base .close
      isOpen := asking base .isOpen
      setLocalEcho := fun enabled => asking base (.setLocalEcho enabled) }
  state := fun s => ⟨s.state, s, []⟩
  setState state := fun s => ⟨(), { s with state }, []⟩
  setStage stage := fun s =>
    ⟨(), { s with state := { s.state with stage } }, [.entered s.state stage]⟩
  validate username password := asking base (.validate username password)
  registry := asking base .registry
  setRegistry registry := asking base (.setRegistry registry)
  note n := asking base (.note n)
  count metric := asking base (.count metric)
  awaitEnd := asking base .awaitEnd
  sleep time := asking base (.sleep time)
  broadcast text := asking base (.broadcast text)
  collect := asking base .collect
  removeSession i := asking base (.removeSession i)

theorem traced_ask (base : Host (Around ρ)) (q : Query) : base.traced.ask q = asking base q := by
  cases q <;> rfl

theorem sits_traced (base : Host (Around ρ)) : base.traced.Sits base where
  result_ask q s := by rw [traced_ask]; rfl
  state_ask q s := by rw [traced_ask]; rfl
  state _ := rfl
  setState _ _ := rfl
  setStage _ _ := rfl

/-! Work that leaves the lifetime as it is. -/

/-- Whether a session was ever started, and whether it has run to its end. -/
def State.lifetime (s : State) : Bool × Bool :=
  (s.running, s.finished)

section

variable {base : Host (Around ρ)} {allowed : Action → Prop} {Good : ρ → Prop}
  {Fine : Bool × Bool → Moment → Prop} (hstable : base.Stable allowed Good)
  (hasked : ∀ s q reply, q.Within allowed → Fine s.lifetime (.asked s q reply))

include hstable hasked

theorem bears_traced :
    base.traced.Bears allowed (fun _ => True) (Spares Good State.lifetime Fine) := by
  refine (sits_traced base).bears hstable (fun q s d hd hq => ?_) fun _ _ => rfl
  rw [traced_ask] at hd
  cases List.mem_singleton.mp hd
  exact hasked s.state q _ hq

variable (hstop : allowed .stop)
  (hvalidated : ∀ s username password accepted,
    Fine s.lifetime (.asked s (.validate username password) accepted))
  (hentered : ∀ s stage, Fine s.lifetime (.entered s stage))

include hstop hvalidated hentered

/-- A byte is answered within a lifetime. -/
theorem spares_press (b : UInt8) :
    Spares Good State.lifetime Fine _ (press base.traced b).run := by
  have hsits := sits_traced base
  have hok := bears_traced hstable hasked
  have hupdate {f : State → State} (hf : ∀ s, (f s).lifetime = s.lifetime) :
      Spares Good State.lifetime Fine _ (base.traced.update f) :=
    hsits.update hf
  have hstage (stage : Stage) : Spares Good State.lifetime Fine _ (base.traced.setStage stage) :=
    hsits.setStage_spares (fun _ _ => rfl) (fun stage s d hd => by
      cases List.mem_singleton.mp hd
      exact hentered s.state stage) stage
  have hvalidate (username password : String) :
      Spares Good State.lifetime Fine _ (base.traced.validate username password) :=
    hsits.validate_spares hstable (fun username password s d hd => by
      cases List.mem_singleton.mp hd
      exact hvalidated s.state username password _) username password
  have hgreets : base.traced.Greets fun _ x => Spares Good State.lifetime Fine _ x.run :=
    hok.greets (fun _ => hupdate fun _ => rfl) hvalidate fun stage _ => hstage stage
  refine hok.press hgreets hstop hstage (fun _ => hupdate fun _ => rfl)
    (hsits.change fun s => ?_) (fun b => hsits.change fun s => ?_) b
  · unfold State.endLine
    split <;> rfl
  · simp only [State.edit]
    split_ifs <;> rfl

/-- A whole conversation too, if reads are as the other calls. -/
theorem spares_converse
    (hread : ∀ count, Spares Good State.lifetime Fine _ (base.traced.channel.read count))
    (limit : Nat) : Spares Good State.lifetime Fine _ (converse base.traced limit).run :=
  (bears_traced hstable hasked).converse hread
    (spares_press hstable hasked hstop hvalidated hentered) limit

end

theorem stable_true (base : Host (Around ρ)) : base.Stable (fun _ => True) fun _ => True where
  ask _ _ _ _ _ := trivial
  validate _ _ _ _ _ := trivial
  registry _ _ _ := Registry.only_of_forall (fun _ => trivial) _

/-- Nothing is read while a byte is answered. -/
theorem unread_press (base : Host (Around ρ)) (b : UInt8) (s : Sitting ρ) :
    ∀ moment ∈ ((press base.traced b).run s).deeds, moment.isRead = false := by
  have hspares : Spares (fun _ => True) State.lifetime (fun _ moment => moment.isRead = false) _
      (press base.traced b).run := by
    refine spares_press (stable_true base) (fun s q reply hq => ?_) trivial
      (fun _ _ _ _ => rfl) (fun _ _ => rfl) b
    cases q with
    | read count => cases hq
    | _ => rfl
  exact (hspares s trivial).2.2

/-- Work within one lifetime. -/
abbrev SparesLifetime : ∀ α : Type, Traced ρ α → Prop :=
  Spares (fun _ => True) State.lifetime fun lifetime moment => moment.memory.lifetime = lifetime

theorem sparesLifetime_asking (base : Host (Around ρ)) (q : Query) :
    SparesLifetime _ (asking base q) :=
  fun _ _ => ⟨trivial, rfl, List.forall_mem_singleton.mpr rfl⟩

theorem sparesLifetime_converse (base : Host (Around ρ)) (limit : Nat) :
    SparesLifetime _ (converse base.traced limit).run :=
  spares_converse (stable_true base) (fun _ _ _ _ => rfl) trivial (fun _ _ _ _ => rfl)
    (fun _ _ => rfl) (fun count => sparesLifetime_asking base (.read count)) limit

/-! Starts and ends. -/

/-- What is told of a start or an end. -/
def Query.lifeNote? : Query → Option Note
  | note (.started i) => some (.started i)
  | note (.ended i) => some (.ended i)
  | _ => none

def Moment.lifeNote? (moment : Moment) : Option Note :=
  moment.query?.bind Query.lifeNote?

/-- Commands tell of no start and of no end. -/
def Action.IsModest : Action → Prop
  | note n => (Query.note n).lifeNote? = none
  | _ => True

theorem Query.lifeNote?_of_within {q : Query} (h : q.Within Action.IsModest) :
    q.lifeNote? = none := by
  cases q with
  | note n =>
      rcases h with h | ⟨i, username, password, accepted, rfl⟩
      · exact h
      · rfl
  | _ => rfl

/-- The commands of a world tell of no start and of no end, whatever happens. -/
structure Host.Modest (base : Host (Around ρ)) (Good : ρ → Prop) : Prop
    extends base.Stable Action.IsModest Good where
  read : ∀ count s w, Good w → Good (((base.channel.read count).run s).run w).2
  note : ∀ n s w, Good w → Good (((base.note n).run s).run w).2

/-- No start or end is told of in a conversation. -/
theorem lifeNote?_converse {base : Host (Around ρ)} {Good : ρ → Prop}
    (hmodest : base.Modest Good) (limit : Nat) {s : Sitting ρ} (hs : Good s.world) :
    ((converse base.traced limit).run s).deeds.filterMap Moment.lifeNote? = [] := by
  have hspares : Spares Good State.lifetime (fun _ moment => moment.lifeNote? = none) _
      (converse base.traced limit).run := by
    refine spares_converse hmodest.toStable (fun _ _ _ hq => Query.lifeNote?_of_within hq) trivial
      (fun _ _ _ _ => rfl) (fun _ _ => rfl) (fun count s hs => ?_) limit
    exact ⟨hmodest.read count _ _ hs, rfl, List.forall_mem_singleton.mpr rfl⟩
  exact List.filterMap_eq_nil_iff.mpr (hspares s hs).2.2

/-! Closing. -/

/-- To close the channel of a session shuts it for good, whatever else is asked. -/
structure Host.Closes (base : Host (Around ρ)) (Shut : ρ → Prop) : Prop where
  channel : ∀ s : State, (base.channel.map fun work => work.run s).Closes Shut
  ask : ∀ q s w, Shut w → Shut (((base.ask q).run s).run w).2

/-- Once the channel is closed it is shut, and no more bytes come or go. -/
def Sealed (Shut : ρ → Prop) (α : Type) (x : Traced ρ α) : Prop :=
  ∀ s, (Shut s.world → Shut (x s).state.world ∧ ∀ moment ∈ (x s).deeds, moment.isTraffic = false) ∧
    ((∃ moment ∈ (x s).deeds, moment.isClose = true) → Shut (x s).state.world) ∧
    (x s).deeds.Pairwise fun moment later => moment.isClose = true → later.isTraffic = false

theorem sealed_joins {Shut : ρ → Prop} : Joins (Sealed Shut) where
  pure a s := by
    refine ⟨fun hshut => ⟨hshut, fun _ hmem => by cases hmem⟩, ?_, .nil⟩
    rintro ⟨_, hmem, -⟩
    cases hmem
  bind hx hf s := by
    obtain ⟨hkeep, hclose, hpairs⟩ := hx s
    obtain ⟨hkeep', hclose', hpairs'⟩ := hf _ _
    -- Between the parts it is the shut world that carries the silence over.
    refine ⟨fun hshut => ?_, ?_, List.pairwise_append.mpr ⟨hpairs, hpairs', ?_⟩⟩
    · obtain ⟨hshut, hquiet⟩ := hkeep hshut
      obtain ⟨hshut', hquiet'⟩ := hkeep' hshut
      exact ⟨hshut', List.forall_mem_append.mpr ⟨hquiet, hquiet'⟩⟩
    · rintro ⟨moment, hmem, hclosed⟩
      rcases List.mem_append.mp hmem with hmem | hmem
      · exact (hkeep' (hclose ⟨moment, hmem, hclosed⟩)).1
      · exact hclose' ⟨moment, hmem, hclosed⟩
    · intro moment hmem later hlater hclosed
      exact (hkeep' (hclose ⟨moment, hmem, hclosed⟩)).2 later hlater

theorem sealed_of_quiet {Shut : ρ → Prop} {α : Type} {x : Traced ρ α}
    (hx : ∀ s, (x s).state.world = s.world ∧
      ∀ moment ∈ (x s).deeds, moment.isTraffic = false ∧ moment.isClose = false) :
    Sealed Shut α x := by
  intro s
  obtain ⟨hworld, hquiet⟩ := hx s
  refine ⟨fun hshut => ⟨hworld.symm ▸ hshut, fun moment hmem => (hquiet moment hmem).1⟩, ?_,
    List.pairwise_of_forall_mem_list fun _ _ later hlater _ => (hquiet later hlater).1⟩
  rintro ⟨moment, hmem, hclosed⟩
  rw [(hquiet moment hmem).2] at hclosed
  cases hclosed

section

variable {base : Host (Around ρ)} {Shut : ρ → Prop} (hcloses : base.Closes Shut)

include hcloses

theorem sealed_asking (q : Query) : Sealed Shut _ (asking base q) := by
  intro s
  refine ⟨fun hshut => ⟨hcloses.ask q _ _ hshut, List.forall_mem_singleton.mpr ?_⟩, ?_,
    List.pairwise_singleton _ _⟩
  · cases q with
    | read count =>
        obtain ⟨⟨e, hread⟩, -⟩ := (hcloses.channel s.state).read count s.world hshut
        have hread : (((base.ask (.read count)).run s.state).run s.world).1 = .error e := hread
        rw [hread]
        rfl
    | write bytes =>
        obtain ⟨⟨e, hwrite⟩, -⟩ := (hcloses.channel s.state).write bytes s.world hshut
        have hwrite : (((base.ask (.write bytes)).run s.state).run s.world).1 = .error e := hwrite
        rw [hwrite]
        rfl
    | _ => rfl
  · rintro ⟨moment, hmem, hclosed⟩
    cases List.mem_singleton.mp hmem
    cases q with
    | close => exact (hcloses.channel s.state).close s.world
    | _ => cases hclosed

theorem sealed_live (limit : Nat) : Sealed Shut _ (live base.traced limit) := by
  have hchange {α : Type} (f : State → α × State) : Sealed Shut α (base.traced.change f) :=
    sealed_of_quiet fun s => ⟨rfl, fun _ hmem => by cases hmem⟩
  have hupdate (f : State → State) : Sealed Shut _ (base.traced.update f) :=
    sealed_of_quiet fun s => ⟨rfl, fun _ hmem => by cases hmem⟩
  have hstage (stage : Stage) : Sealed Shut _ (base.traced.setStage stage) :=
    sealed_of_quiet fun s => ⟨rfl, List.forall_mem_singleton.mpr ⟨rfl, rfl⟩⟩
  have hok : base.traced.Bears (fun _ => True) (fun _ => True) (Sealed Shut) :=
    { toJoins := sealed_joins
      ask := fun q _ => by
        rw [traced_ask]
        exact sealed_asking hcloses q
      state := fun hf s => hf s.state trivial s
      registry := fun hf => sealed_joins.bind (sealed_asking hcloses .registry) fun r =>
        hf r (Registry.only_of_forall (fun _ => trivial) r)
      setRequireEcho := fun _ _ => hupdate _ }
  have hgreets : base.traced.Greets fun _ x => Sealed Shut _ x.run :=
    hok.greets (fun _ => hupdate _)
      (fun username password => sealed_asking hcloses (.validate username password))
      fun stage _ => hstage stage
  have hpress := hok.press hgreets trivial hstage (fun _ => hupdate _) (hchange _)
    fun _ => hchange _
  exact hok.live (fun _ => trivial) trivial (hupdate _)
    (hok.converse (fun count => sealed_asking hcloses (.read count)) hpress limit)

end

end RemoteConsole.Session
