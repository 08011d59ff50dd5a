/-
Kinds of work that take in every query of a session, logins apart, and every change to its
memory that leaves the stage alone.  They take in whatever its commands do.
-/
import RemoteConsole.Proofs.Session.Conduct

namespace RemoteConsole.Session

variable {m : Type → Type u} [Monad m]

/-- The user has logged in. -/
def State.LoggedIn (s : State) : Prop :=
  s.stage.isLogin = false

/-- The calls of a session on its surroundings are of a kind, those of logins apart. -/
structure Host.Keeps (h : Host m) (Seen : State → Prop) (Ok : ∀ α : Type, m α → Prop) : Prop
    extends Joins Ok where
  write : ∀ bytes, Ok _ (h.channel.write bytes)
  close : Ok _ h.channel.close
  setLocalEcho : ∀ enabled, Ok _ (h.channel.setLocalEcho enabled)
  isOpen : Ok _ h.channel.isOpen
  /-- What is done for the memory that is found need be of the kind only for a memory that
  can be seen. -/
  state : ∀ {α : Type} {f : State → m α}, (∀ s, Seen s → Ok α (f s)) → Ok α (h.state >>= f)
  change : ∀ {α : Type} (f : State → α × State),
    (∀ s, (f s).2.stage = s.stage) → Ok α (h.change f)
  registry : Ok _ h.registry
  setRegistry : ∀ registry, Ok _ (h.setRegistry registry)
  note : ∀ n, Ok _ (h.note n)
  count : ∀ metric, Ok _ (h.count metric)
  awaitEnd : Ok _ h.awaitEnd
  sleep : ∀ time, Ok _ (h.sleep time)
  broadcast : ∀ text, Ok _ (h.broadcast text)
  collect : Ok _ h.collect
  removeSession : ∀ i, Ok _ (h.removeSession i)

/-- So are those of logins. -/
structure Host.Admits (h : Host m) (Ok : ∀ α : Type, m α → Prop) : Prop where
  validate : ∀ username password, Ok _ (h.validate username password)
  setStage : ∀ stage, stage ≠ .processing → Ok _ (h.setStage stage)

/-- What commands have their own session do is of a kind. -/
structure Inner.Keeps (i : Inner m) (Ok : ∀ α : Type, m α → Prop) : Prop where
  submit : ∀ line, Ok _ (i.submit line).run
  press : ∀ b, Ok _ (i.press b).run

variable {Seen : State → Prop} {Ok : ∀ α : Type, m α → Prop}

theorem Inner.Keeps.bears {i : Inner m} (hok : Joins Ok) (hi : i.Keeps Ok) :
    i.Bears (fun _ => True) Ok where
  submit line _ := hi.submit line
  typeIn _ _ := hok.forM fun b _ => hi.press b

variable [LawfulMonad m]

section

variable {h : Host m} (hok : h.Keeps Seen Ok)

include hok

theorem Host.Keeps.update {f : State → State} (hf : ∀ s, (f s).stage = s.stage) :
    Ok _ (h.update f) := by
  rw [h.update_eq_change]
  exact hok.change _ hf

/-- Commands may do everything. -/
theorem Host.Keeps.bears : h.Bears (fun _ => True) Seen Ok where
  toJoins := hok.toJoins
  ask q hq := by
    cases q with
    | read count => cases hq
    | write bytes => exact hok.write bytes
    | close => exact hok.close
    | isOpen => exact hok.isOpen
    | setLocalEcho enabled => exact hok.setLocalEcho enabled
    | validate username password => cases hq
    | registry => exact hok.registry
    | setRegistry registry => exact hok.setRegistry registry
    | note n => exact hok.note n
    | count metric => exact hok.count metric
    | awaitEnd => exact hok.awaitEnd
    | sleep time => exact hok.sleep time
    | broadcast text => exact hok.broadcast text
    | collect => exact hok.collect
    | removeSession i => exact hok.removeSession i
  state := hok.state
  registry hf := hok.bind hok.registry fun r =>
    hf r (Registry.only_of_forall (fun _ => trivial) r)
  setRequireEcho _ _ := hok.update fun _ => rfl

theorem Host.Keeps.greets (hadmits : h.Admits Ok) : h.Greets fun _ x => Ok _ x.run :=
  hok.bears.greets (fun _ => hok.update fun _ => rfl) hadmits.validate hadmits.setStage

theorem Host.Keeps.look {α : Type} {f : State → Work m α}
    (hf : ∀ s, Seen s → Ok _ (f s).run) :
    Ok _ ((liftM h.state : Work m State) >>= f).run :=
  hok.bears.look hf

theorem Host.Keeps.attend {i : Inner m} (hi : i.Keeps Ok) (found : Match Handler)
    (a : Arguments) : Ok _ (attend h i found a) :=
  hok.bears.attend (hi.bears hok.toJoins) (Handler.only_of_forall (fun _ => trivial) _) a

/-- A command, if changing the stage is of the kind too. -/
theorem Host.Keeps.runCommand (hstage : ∀ stage, Ok _ (h.setStage stage)) {i : Inner m}
    (hi : i.Keeps Ok) (found : Match Handler) (a : Arguments) :
    Ok _ (runCommand h i found a).run :=
  hok.bears.runCommand hstage (hi.bears hok.toJoins)
    (Handler.only_of_forall (fun _ => trivial) _) a

theorem Host.Keeps.submitLine {i : Inner m}
    (hrun : ∀ found a, Ok _ (Session.runCommand h i found a).run) (text : String) :
    Ok _ (submitLine h i text).run :=
  hok.bears.tends.submitLine (hok.bears.tends.dispatch fun found _ => hrun found)
    (fun _ => hok.lift (hok.update fun _ => rfl)) (hok.lift (hok.bears.stop trivial)) text

theorem Host.Keeps.heed (hadmits : h.Admits Ok) (i : Inner m) {stage : Stage}
    (hstage : stage.isLogin = true) (line : String) : Ok _ (heed h i stage line).run :=
  hok.bears.tends.heed (hok.greets hadmits) i hstage line

theorem Host.Keeps.answer {i : Inner m} {s : State} {line : String}
    (hheed : Ok _ (Session.heed h i s.stage line).run) : Ok _ (answer h i s line).run :=
  hok.bears.tends.answer hheed

theorem Host.Keeps.takeLine_of_loggedIn (hseen : ∀ s, Seen s → s.LoggedIn) {i : Inner m}
    (hrun : ∀ found a, Ok _ (Session.runCommand h i found a).run) (line : String) :
    Ok _ (takeLine h i line).run :=
  hok.bears.tends.takeLine fun s hs => by
    rw [heed_of_not_login h i (hseen s hs)]
    exact hok.submitLine hrun line

theorem Host.Keeps.takeLine_of_admits (hadmits : h.Admits Ok) {i : Inner m}
    (hrun : ∀ found a, Ok _ (Session.runCommand h i found a).run) (line : String) :
    Ok _ (takeLine h i line).run :=
  hok.bears.tends.takeLine_of_greets (hok.greets hadmits) (hok.submitLine hrun line)

theorem Host.Keeps.pressKey {i : Inner m} (b : UInt8)
    (htake : ∀ line, Ok _ (takeLine h i line).run) : Ok _ (pressKey h i b).run :=
  hok.bears.tends.pressKey b (hok.lift (hok.change _ State.stage_endLine))
    (hok.lift (hok.change _ fun s => s.stage_edit h.config b)) htake

/-- If commands and lines are of the kind whenever what they have their session do is, then so
is all that they have it do, to any depth. -/
theorem Host.Keeps.inner
    (hrun : ∀ i : Inner m, i.Keeps Ok → ∀ found a, Ok _ (Session.runCommand h i found a).run)
    (htake : ∀ i : Inner m, (∀ found a, Ok _ (Session.runCommand h i found a).run) →
      ∀ line, Ok _ (takeLine h i line).run)
    (depth : Nat) : (inner h depth).Keeps Ok := by
  induction depth with
  | zero =>
      rw [Session.inner]
      exact ⟨fun _ => hok.pure _, fun _ => hok.pure _⟩
  | succ depth ih =>
      have hrun := hrun _ ih
      rw [Session.inner]
      constructor <;> dsimp only
      · exact hok.submitLine hrun
      · exact fun b => hok.pressKey b (htake _ hrun)

/-- A whole session, if that is what answering a byte is. -/
theorem Host.Keeps.live (hread : ∀ count, Ok _ (h.channel.read count))
    (hpress : ∀ b, Ok _ (press h b).run) (limit : Nat) : Ok _ (live h limit) :=
  hok.bears.live (fun _ => trivial) trivial (hok.update fun _ => rfl)
    (hok.bears.converse hread hpress limit)

end

end RemoteConsole.Session
