/-
A session with a record of what it does.  The session keeps its own memory.  All else
around it, from the channel to the powers of the console, is a world of any kind, which may
look at that memory but not touch it.
-/
import RemoteConsole.Proofs.Session.Attempts
import RemoteConsole.Proofs.Session.Commands

namespace RemoteConsole.Session

/-- What came of work on a state: a result, the state after, and a record. -/
structure Ran (S D α : Type) where
  result : α
  state : S
  deeds : List D

/-- Work on a state `S` with a record of deeds `D`. -/
def Recorded (S D α : Type) := S → Ran S D α

namespace Recorded

variable {S D α β : Type}

instance : Monad (Recorded S D) where
  pure a s := ⟨a, s, []⟩
  bind x f s :=
    { f (x s).result (x s).state with
      deeds := (x s).deeds ++ (f (x s).result (x s).state).deeds }

theorem pure_run (a : α) (s : S) : (pure a : Recorded S D α) s = ⟨a, s, []⟩ := rfl

theorem bind_run (x : Recorded S D α) (f : α → Recorded S D β) (s : S) :
    (x >>= f) s =
      { f (x s).result (x s).state with
        deeds := (x s).deeds ++ (f (x s).result (x s).state).deeds } := rfl

instance : LawfulMonad (Recorded S D) :=
  LawfulMonad.mk' _
    (fun x => funext fun s => by
      change ({ x s with deeds := (x s).deeds ++ [] } : Ran S D _) = x s
      rw [List.append_nil])
    (fun _ _ => rfl)
    (fun x f g => funext fun s => by simp only [bind_run, List.append_assoc])

/-- Enter something in the record. -/
def enter (d : D) : Recorded S D Unit := fun s => ⟨(), s, [d]⟩

end Recorded

/-- What a session does that others can learn of. -/
inductive Deed where
  | wrote (bytes : List UInt8)
  | setEcho (enabled : Bool)
  | closed
  /-- It was seen whether the channel is open. -/
  | looked (opened : Bool)
  /-- The channel was read from, and the stage was this. -/
  | read (stage : Stage) (result : Except Channel.Error (List UInt8))
  | entered (stage : Stage)
  /-- A login was decided on. -/
  | tried (username password : String) (accepted : Bool)
  /-- The commands were looked at. -/
  | consulted
  | counted (metric : Metric)
  | noted (n : Note)

/-- The bytes that were written, one after the other. -/
def written (deeds : List Deed) : List UInt8 :=
  deeds.flatMap fun
    | .wrote bytes => bytes
    | _ => []

@[simp] theorem written_nil : written [] = [] := rfl

@[simp] theorem written_append (ds es : List Deed) :
    written (ds ++ es) = written ds ++ written es :=
  List.flatMap_append

/-- A session in its world. -/
structure Sitting (ρ : Type) where
  state : State
  world : ρ

/-- Work on the world that may look at the memory of the session. -/
abbrev Around (ρ : Type) := ReaderT State (StateM ρ)

/-- What a session does in its world. -/
abbrev Course (ρ : Type) := Recorded (Sitting ρ) Deed

variable {ρ : Type}

/-- Let the world do something. -/
def around {α : Type} (work : Around ρ α) : Course ρ α := fun s =>
  ⟨((work.run s.state).run s.world).1, ⟨s.state, ((work.run s.state).run s.world).2⟩, []⟩

/-- The surroundings of a session that keeps its own memory, with a record. -/
def Host.seated (base : Host (Around ρ)) : Host (Course ρ) where
  id := base.id
  config := base.config
  hooks := base.hooks
  bounds := base.bounds
  channel :=
    { base.channel.map around with
      read := fun count => do
        let result ← around (base.channel.read count)
        fun s => ⟨result, s, [.read s.state.stage result]⟩
      write := fun bytes => do
        Recorded.enter (.wrote bytes)
        around (base.channel.write bytes)
      close := do
        Recorded.enter .closed
        around base.channel.close
      isOpen := do
        let opened ← around base.channel.isOpen
        Recorded.enter (.looked opened)
        return opened
      setLocalEcho := fun enabled => do
        Recorded.enter (.setEcho enabled)
        around (base.channel.setLocalEcho enabled) }
  state := fun s => ⟨s.state, s, []⟩
  setState state := fun s => ⟨(), { s with state }, []⟩
  setStage stage := fun s => ⟨(), { s with state := { s.state with stage } }, [.entered stage]⟩
  validate username password := do
    let accepted ← around (base.validate username password)
    Recorded.enter (.tried username password accepted)
    return accepted
  registry := do
    Recorded.enter .consulted
    around base.registry
  setRegistry registry := around (base.setRegistry registry)
  note n := do
    Recorded.enter (.noted n)
    around (base.note n)
  count metric := do
    Recorded.enter (.counted metric)
    around (base.count metric)
  awaitEnd := around base.awaitEnd
  sleep time := around (base.sleep time)
  broadcast text := around (base.broadcast text)
  collect := around base.collect
  removeSession i := around (base.removeSession i)

/-- Whether a deed is neither a read nor part of a login or of a change of stage. -/
def Deed.isPlain : Deed → Bool
  | read _ _ | entered _ | tried _ _ _ => false
  | _ => true

/-- A kind of work takes in the calls of a session with a record if it takes in what the world
does, plain deeds, and looking at the memory and changing it. -/
theorem Joins.keeps_seated {Seen : State → Prop} {Ok : ∀ α : Type, Course ρ α → Prop}
    (hok : Joins Ok) (base : Host (Around ρ))
    (haround : ∀ {α : Type} (work : Around ρ α), Ok α (around work))
    (henter : ∀ d : Deed, d.isPlain = true → Ok Unit (Recorded.enter d))
    (hstate : ∀ {α : Type} {f : State → Course ρ α},
      (∀ s, Seen s → Ok α (f s)) → Ok α (base.seated.state >>= f))
    (hchange : ∀ {α : Type} (f : State → α × State),
      (∀ s, (f s).2.stage = s.stage) → Ok α (base.seated.change f)) :
    base.seated.Keeps Seen Ok := by
  have hcall : ∀ {α : Type} (d : Deed) (work : Around ρ α), d.isPlain = true →
      Ok α (do Recorded.enter d; around work) :=
    fun d work hd => hok.bind (henter d hd) fun _ => haround work
  exact
    { toJoins := hok
      write := fun _ => hcall _ _ rfl
      close := hcall _ _ rfl
      setLocalEcho := fun _ => hcall _ _ rfl
      isOpen := hok.bind (haround _) fun _ => hok.bind (henter _ rfl) fun _ => hok.pure _
      state := hstate
      change := hchange
      registry := hcall _ _ rfl
      setRegistry := fun _ => haround _
      note := fun _ => hcall _ _ rfl
      count := fun _ => hcall _ _ rfl
      awaitEnd := haround _
      sleep := fun _ => haround _
      broadcast := fun _ => haround _
      collect := haround _
      removeSession := fun _ => haround _ }

theorem State.stage_key (s : State) (c : Config) (b : UInt8) : (s.key c b).1.stage = s.stage := by
  unfold State.key
  split
  · exact s.stage_endLine
  · exact s.stage_edit c b

@[simp] theorem seated_config (base : Host (Around ρ)) : base.seated.config = base.config := rfl

theorem change_run (base : Host (Around ρ)) {α β : Type} (f : State → α × State)
    (g : α → Work (Course ρ) β) (s : Sitting ρ) :
    ((liftM (base.seated.change f) : Work (Course ρ) α) >>= g).run s =
      (g (f s.state).1).run { s with state := (f s.state).2 } := rfl

/-- A byte is taken into the memory first, and then answered. -/
theorem pressKey_run (base : Host (Around ρ)) (i : Inner (Course ρ)) (b : UInt8)
    (s : Sitting ρ) :
    (pressKey base.seated i b).run s =
      let next : Sitting ρ := { s with state := (s.state.key base.config b).1 }
      match (s.state.key base.config b).2 with
      | some line => (takeLine base.seated i line).run next
      | none =>
          if isLineEnd b = false ∧ s.state.shown base.config b ≠ .none then
            (sendBytes base.seated (s.state.shown base.config b).bytes).run next
          else ⟨.ok (), next, []⟩ := by
  rw [pressKey_eq]
  by_cases hb : isLineEnd b
  · have hkey : s.state.key base.config b = s.state.endLine := if_pos hb
    rw [hkey, if_pos hb, change_run]
    cases s.state.endLine.2 with
    | none => exact (if_neg (by simp [hb])).symm
    | some line => rfl
  · have hkey : s.state.key base.config b = ((s.state.edit base.config b).1, none) := if_neg hb
    rw [hkey, if_neg hb, change_run]
    by_cases hshown : s.state.shown base.config b = .none
    · exact Eq.trans (by rw [seated_config, if_neg (not_not_intro hshown)]; rfl)
        (if_neg fun h => h.2 hshown).symm
    · simp [hb, hshown]

theorem takeLine_run (base : Host (Around ρ)) (i : Inner (Course ρ)) (line : String)
    (s : Sitting ρ) :
    (takeLine base.seated i line).run s = (answer base.seated i s.state line).run s := by
  rw [takeLine_eq]
  rfl

theorem sendBytes_run (base : Host (Around ρ)) (bytes : List UInt8) (s : Sitting ρ) :
    ∃ result w, (sendBytes base.seated bytes).run s = ⟨result, ⟨s.state, w⟩, [.wrote bytes]⟩ := by
  have hwrite : base.seated.channel.write bytes s =
      ⟨((base.channel.write bytes s.state).run s.world).1,
        ⟨s.state, ((base.channel.write bytes s.state).run s.world).2⟩, [.wrote bytes]⟩ := rfl
  rw [sendBytes, onChannel, ExceptT.run_mk, Recorded.bind_run, hwrite]
  cases ((base.channel.write bytes s.state).run s.world).1 with
  | ok _ => exact ⟨_, _, rfl⟩
  | error e => exact ⟨_, _, rfl⟩

theorem adjustEcho_run (base : Host (Around ρ)) (s : Sitting ρ) :
    ∃ result w, (adjustEcho base.seated).run s =
      ⟨result, ⟨s.state, w⟩, [.setEcho s.state.wantsLocalEcho]⟩ := by
  have hset : base.seated.channel.setLocalEcho s.state.wantsLocalEcho s =
      ⟨((base.channel.setLocalEcho s.state.wantsLocalEcho s.state).run s.world).1,
        ⟨s.state, ((base.channel.setLocalEcho s.state.wantsLocalEcho s.state).run s.world).2⟩,
        [.setEcho s.state.wantsLocalEcho]⟩ := rfl
  have hlook : (adjustEcho base.seated).run s =
      (onChannel (base.seated.channel.setLocalEcho s.state.wantsLocalEcho)).run s := rfl
  rw [hlook, onChannel, ExceptT.run_mk, Recorded.bind_run, hset]
  cases ((base.channel.setLocalEcho s.state.wantsLocalEcho s.state).run s.world).1 with
  | ok _ => exact ⟨_, _, rfl⟩
  | error e => exact ⟨_, _, rfl⟩

end RemoteConsole.Session
