/-
What a session does, in any setting.  A kind of work that takes in the queries of a session
to its surroundings, and one thing after another, takes in what commands do, if they do no
more than is allowed them, and from that whatever a session makes of a line or of a byte,
however deep commands have their own session carry out more.
-/
import RemoteConsole.Proofs.Session.Parts

namespace RemoteConsole.Session

/-! What commands may do. -/

/-- A handler never does more than is allowed, nor do the commands it makes known. -/
def Handler.Only (allowed : Action → Prop) : Handler → Prop
  | .finish _ => True
  | .perform action next => allowed action ∧ ∀ reply, (next reply).Only allowed
  | .register _ _ _ handler next => handler.Only allowed ∧ ∀ done, (next done).Only allowed

theorem Handler.only_of_forall {allowed : Action → Prop} (hall : ∀ action, allowed action)
    (handler : Handler) : handler.Only allowed := by
  induction handler with
  | finish outcome => trivial
  | perform action next ih => exact ⟨hall action, ih⟩
  | register names help usage handler next hhandler ih => exact ⟨hhandler, ih⟩

namespace Registry

/-- No command does more than is allowed. -/
def Only (allowed : Action → Prop) (r : Registry Handler) : Prop :=
  ∀ entry ∈ r.entries, entry.2.handler.Only allowed

theorem only_of_forall {allowed : Action → Prop} (hall : ∀ action, allowed action)
    (r : Registry Handler) : r.Only allowed :=
  fun _ _ => Handler.only_of_forall hall _

variable {H : Type}

theorem of_mem_insertInto {name : String} {entry : Entry H} {entries : List (String × Entry H)} :
    ∀ p ∈ insertInto name entry entries, p = (name, entry) ∨ p ∈ entries := by
  induction entries with
  | nil => simp [insertInto]
  | cons first rest ih =>
      intro p hp
      rw [insertInto] at hp
      split_ifs at hp with hlt heq
      · exact List.mem_cons.mp hp
      · rcases List.mem_cons.mp hp with rfl | hp
        · exact Or.inl rfl
        · exact Or.inr (List.mem_cons_of_mem _ hp)
      · rcases List.mem_cons.mp hp with rfl | hp
        · exact Or.inr List.mem_cons_self
        · exact (ih p hp).imp_right (List.mem_cons_of_mem _)

theorem mem_entries_of_get? {r : Registry H} {name : String} {entry : Entry H}
    (h : r.get? name = some entry) : ∃ p ∈ r.entries, p.2 = entry := by
  obtain ⟨before, after, hsplit, -⟩ := List.lookup_eq_some_iff.mp h
  exact ⟨(name, entry), by simp [hsplit], rfl⟩

theorem mem_entries_of_longestFrom {r : Registry H} {tokens : List String}
    {found : Option (Match H)} {count : Nat} {name : String} {best : Match H}
    (hfound : ∀ f ∈ found, ∃ p ∈ r.entries, p.2 = f.entry)
    (h : r.longestFrom found count name tokens = some best) :
    ∃ p ∈ r.entries, p.2 = best.entry := by
  induction tokens generalizing found count name with
  | nil => exact hfound best h
  | cons token rest ih =>
      refine ih (fun f hf => ?_) h
      rcases Option.or_eq_some_iff.mp hf with hf | ⟨-, hf⟩
      · obtain ⟨entry, hget, rfl⟩ := Option.map_eq_some_iff.mp hf
        exact mem_entries_of_get? hget
      · exact hfound f hf

section

variable {allowed : Action → Prop} {r : Registry Handler}

theorem Only.longest (h : r.Only allowed) {tokens : List String} {found : Match Handler}
    (hfound : r.longest tokens = some found) : found.entry.handler.Only allowed := by
  obtain ⟨p, hp, hentry⟩ := mem_entries_of_longestFrom (by simp) hfound
  exact hentry ▸ h p hp

theorem Only.insert (h : r.Only allowed) (name : String) {entry : Entry Handler}
    (hentry : entry.handler.Only allowed) : (r.insert name entry).Only allowed := by
  intro p hp
  rcases of_mem_insertInto p hp with rfl | hp
  · exact hentry
  · exact h p hp

theorem Only.register (h : r.Only allowed) (listed : String) {entry : Entry Handler}
    (hentry : entry.handler.Only allowed) : (r.register listed entry).1.Only allowed := by
  have hinserts (names : List String) {r : Registry Handler} (h : r.Only allowed) :
      (names.foldl (fun r name => r.insert name entry) r).Only allowed := by
    induction names generalizing r with
    | nil => exact h
    | cons name rest ih => exact ih (h.insert name hentry)
  unfold Registry.register
  dsimp only
  split
  · exact h
  · exact hinserts _ h

theorem Only.remove (h : r.Only allowed) (listed : String) :
    (r.remove listed).1.Only allowed := by
  have herases (names : List String) {r : Registry Handler} (h : r.Only allowed) :
      (names.foldl Registry.erase r).Only allowed := by
    induction names generalizing r with
    | nil => exact h
    | cons name rest ih => exact ih fun p hp => h p (List.mem_filter.mp hp).1
  exact herases _ h

end

end Registry

/-! What a session asks of its surroundings. -/

/-- What a session can ask. -/
inductive Query where
  | read (count : Nat)
  | write (bytes : List UInt8)
  | close
  | isOpen
  | setLocalEcho (enabled : Bool)
  | validate (username password : String)
  | registry
  | setRegistry (registry : Registry Handler)
  | note (n : Note)
  | count (metric : Metric)
  | awaitEnd
  | sleep (time : Nat)
  | broadcast (text : String)
  | collect
  | removeSession (i : Id)

/-- What it is told. -/
def Query.Reply : Query → Type
  | read _ => Except Channel.Error (List UInt8)
  | write _ | close | setLocalEcho _ => Except Channel.Error Unit
  | isOpen | validate _ _ => Bool
  | registry => Registry Handler
  | setRegistry _ | note _ | count _ | awaitEnd | sleep _ => Unit
  | broadcast _ => Tally
  | collect => Nat
  | removeSession _ => Except Error Unit

variable {m : Type → Type u}

def Host.ask (h : Host m) : (q : Query) → m q.Reply
  | .read count => h.channel.read count
  | .write bytes => h.channel.write bytes
  | .close => h.channel.close
  | .isOpen => h.channel.isOpen
  | .setLocalEcho enabled => h.channel.setLocalEcho enabled
  | .validate username password => h.validate username password
  | .registry => h.registry
  | .setRegistry registry => h.setRegistry registry
  | .note n => h.note n
  | .count metric => h.count metric
  | .awaitEnd => h.awaitEnd
  | .sleep time => h.sleep time
  | .broadcast text => h.broadcast text
  | .collect => h.collect
  | .removeSession i => h.removeSession i

/-- A session whose commands do only what is allowed asks this in answer to a line.  It is
left out that lines are read, and that logins are decided on. -/
def Query.Within (allowed : Action → Prop) : Query → Prop
  | read _ | validate _ _ => False
  | write _ | isOpen | setLocalEcho _ | registry | count _ => True
  | close | awaitEnd => allowed .stop
  | setRegistry r => r.Only allowed
  | note n => allowed (.note n) ∨ ∃ i username password accepted,
      n = .login i username password accepted
  | sleep time => allowed (.sleep time)
  | broadcast text => allowed (.broadcast text)
  | collect => allowed .collect
  | removeSession i => allowed (.removeSession i)

/-! Kinds of work. -/

variable [Monad m]

/-- A kind of work that can be put together. -/
structure Joins (Ok : ∀ α : Type, m α → Prop) : Prop where
  pure : ∀ {α : Type} (a : α), Ok α (pure a)
  bind : ∀ {α β : Type} {x : m α} {f : α → m β},
    Ok α x → (∀ a, Ok β (f a)) → Ok β (x >>= f)

/-- A kind of work that may fail and that can be put together. -/
structure Chains (Fit : ∀ α : Type, Work m α → Prop) : Prop where
  pure : ∀ {α : Type} (a : α), Fit α (pure a)
  bind : ∀ {α β : Type} {x : Work m α} {f : α → Work m β},
    Fit α x → (∀ a, Fit β (f a)) → Fit β (x >>= f)

variable {Seen : State → Prop} {Ok : ∀ α : Type, m α → Prop}
  {Fit : ∀ α : Type, Work m α → Prop} {allowed : Action → Prop}

theorem Joins.seq (hok : Joins Ok) {ε α β : Type} {x : ExceptT ε m α} {f : α → ExceptT ε m β}
    (hx : Ok _ x.run) (hf : ∀ a, Ok _ (f a).run) : Ok _ (x >>= f).run := by
  rw [ExceptT.run_bind]
  refine hok.bind hx fun result => ?_
  cases result with
  | ok a => exact hf a
  | error e => exact hok.pure _

theorem Joins.chains (hok : Joins Ok) : Chains fun α (x : Work m α) => Ok _ x.run :=
  ⟨fun _ => hok.pure _, hok.seq⟩

theorem Joins.onChannel (hok : Joins Ok) {call : m (Except Channel.Error Unit)}
    (hcall : Ok _ call) : Ok _ (onChannel call).run := by
  refine hok.bind hcall fun result => ?_
  cases result with
  | ok _ => exact hok.pure _
  | error e => exact hok.pure _

theorem Joins.forM (hok : Joins Ok) {α : Type} {f : α → Work m PUnit} {as : List α}
    (hf : ∀ a ∈ as, Ok _ (f a).run) : Ok _ (as.forM f).run := by
  induction as with
  | nil => exact hok.pure _
  | cons a as ih =>
      obtain ⟨ha, has⟩ := List.forall_mem_cons.mp hf
      exact hok.seq ha fun _ => ih has

theorem Joins.map [LawfulMonad m] (hok : Joins Ok) {α β : Type} {x : m α} (f : α → β)
    (hx : Ok α x) : Ok β (f <$> x) := by
  rw [map_eq_pure_bind]
  exact hok.bind hx fun a => hok.pure _

theorem Joins.lift [LawfulMonad m] (hok : Joins Ok) {ε α : Type} {x : m α} (hx : Ok α x) :
    Ok _ (liftM x : ExceptT ε m α).run :=
  hok.map Except.ok hx

/-! Commands. -/

/-- What commands use that do only what is allowed is of a kind. -/
structure Host.Bears (h : Host m) (allowed : Action → Prop) (Seen : State → Prop)
    (Ok : ∀ α : Type, m α → Prop) : Prop extends Joins Ok where
  ask : ∀ q : Query, q.Within allowed → Ok _ (h.ask q)
  /-- What is done for the memory that is found need be of the kind only for a memory that
  can be seen. -/
  state : ∀ {α : Type} {f : State → m α}, (∀ s, Seen s → Ok α (f s)) → Ok α (h.state >>= f)
  registry : ∀ {α : Type} {f : Registry Handler → m α},
    (∀ r, r.Only allowed → Ok α (f r)) → Ok α (h.registry >>= f)
  setRequireEcho : ∀ enabled, allowed (.setRequireEcho enabled) →
    Ok _ (h.update ({ · with requireEcho := enabled }))

/-- What such commands have their own session do is of a kind. -/
structure Inner.Bears (i : Inner m) (allowed : Action → Prop) (Ok : ∀ α : Type, m α → Prop) :
    Prop where
  submit : ∀ line, allowed (.submit line) → Ok _ (i.submit line).run
  typeIn : ∀ bytes, allowed (.typeIn bytes) → Ok _ (bytes.forM i.press).run

section

variable {h : Host m} (hok : h.Bears allowed Seen Ok)

include hok

theorem Host.Bears.sendText (text : String) : Ok _ (sendText h text).run :=
  hok.onChannel (hok.ask (.write _) trivial)

theorem Host.Bears.flush (a : Arguments) : Ok _ (flush h a) := by
  unfold Session.flush
  split
  · exact hok.pure _
  · exact hok.bind (hok.sendText a.output) fun _ => hok.pure _

theorem Host.Bears.stop (hstop : allowed .stop) : Ok _ (stop h) :=
  hok.bind (hok.ask .close hstop) fun _ => hok.ask .awaitEnd hstop

variable [LawfulMonad m]

/-- Looking at the memory in the midst of work that may fail. -/
theorem Host.Bears.look {α : Type} {f : State → Work m α}
    (hf : ∀ s, Seen s → Ok _ (f s).run) :
    Ok _ ((liftM h.state : Work m State) >>= f).run := by
  rw [ExceptT.run_bind, ExceptT.run_liftM, bind_map_left]
  exact hok.state hf

/-- Looking at the commands in the midst of work that may fail. -/
theorem Host.Bears.consult {α : Type} {f : Registry Handler → Work m α}
    (hf : ∀ r, r.Only allowed → Ok _ (f r).run) :
    Ok _ ((liftM h.registry : Work m (Registry Handler)) >>= f).run := by
  rw [ExceptT.run_bind, ExceptT.run_liftM, bind_map_left]
  exact hok.registry hf

theorem Host.Bears.act {i : Inner m} (hi : i.Bears allowed Ok) (a : Arguments) {action : Action}
    (hallowed : allowed action) : Ok _ (act h i a action) := by
  have replied {α : Type} {x : m α} (hx : Ok α x) : Ok _ (do return (← x, a)) :=
    hok.bind hx fun _ => hok.pure _
  cases action with
  | look => exact hok.state fun s _ => hok.pure _
  | write text => exact hok.pure _
  | writeError message => exact hok.pure _
  | writeUsage => exact hok.pure _
  | flush => exact hok.flush a
  | shift count => exact hok.pure _
  | prompt => exact replied (hok.look fun _ _ => hok.sendText _)
  | help => exact replied (hok.consult fun _ _ => hok.sendText _)
  | sendLine text => exact replied (hok.sendText _)
  | sendBytes bytes => exact replied (hok.onChannel (hok.ask (.write bytes) trivial))
  | stop => exact hok.bind (hok.stop hallowed) fun _ => hok.pure _
  | setRequireEcho enabled =>
      exact hok.bind (hok.setRequireEcho enabled hallowed) fun _ => hok.pure _
  | submit line => exact replied (hi.submit line hallowed)
  | typeIn bytes => exact replied (hi.typeIn bytes hallowed)
  | unregister names =>
      exact hok.registry fun r hr =>
        hok.bind (hok.ask (.setRegistry _) (hr.remove names)) fun _ => hok.pure _
  | note n => exact hok.bind (hok.ask (.note n) (Or.inl hallowed)) fun _ => hok.pure _
  | sleep time => exact hok.bind (hok.ask (.sleep time) hallowed) fun _ => hok.pure _
  | broadcast text => exact replied (hok.ask (.broadcast text) hallowed)
  | collect => exact replied (hok.ask .collect hallowed)
  | removeSession i => exact replied (hok.ask (.removeSession i) hallowed)

/-- Whatever a handler does of what is allowed, and however it ends. -/
theorem Host.Bears.perform {i : Inner m} (hi : i.Bears allowed Ok) {handler : Handler}
    (honly : handler.Only allowed) (a : Arguments) : Ok _ (perform h i handler a) := by
  induction handler generalizing a with
  | finish outcome => exact hok.pure _
  | perform action next ih =>
      obtain ⟨hallowed, hnext⟩ := honly
      exact hok.bind (hok.act hi a hallowed) fun _ => ih _ (hnext _) _
  | register names help usage handler next _ ih =>
      obtain ⟨hhandler, hnext⟩ := honly
      exact hok.registry fun r hr =>
        hok.bind (hok.ask (.setRegistry _) (hr.register names hhandler)) fun _ =>
          ih _ (hnext _) _

theorem Host.Bears.attend {i : Inner m} (hi : i.Bears allowed Ok) {found : Match Handler}
    (honly : found.entry.handler.Only allowed) (a : Arguments) : Ok _ (attend h i found a) := by
  refine hok.bind (hok.perform hi honly _) fun done => ?_
  have hflush : ∀ a, Ok _ (do return (← Session.flush h a).1) := fun a =>
    hok.bind (hok.flush a) fun _ => hok.pure _
  have hcount : Ok _ (h.count .failed) := hok.ask (.count .failed) trivial
  obtain ⟨outcome, a⟩ := done
  cases outcome with
  | succeeded => exact hok.bind (hok.pure a) hflush
  | failed e => exact hok.bind hcount fun _ => hok.bind (hok.pure _) hflush
  | crashed => exact hok.bind hcount fun _ => hok.bind (hok.pure _) hflush

/-- A command, if changing the stage is of the kind too. -/
theorem Host.Bears.runCommand (hstage : ∀ stage, Ok _ (h.setStage stage)) {i : Inner m}
    (hi : i.Bears allowed Ok) {found : Match Handler}
    (honly : found.entry.handler.Only allowed) (a : Arguments) :
    Ok _ (runCommand h i found a).run := by
  rw [runCommand_run]
  have hcount : Ok _ (h.count .dispatched) := hok.ask (.count .dispatched) trivial
  refine hok.bind hcount fun _ => hok.bind (hstage _) fun _ => ?_
  exact hok.bind (hok.attend hi honly a) fun _ => hok.bind (hstage _) fun _ => hok.pure _

omit [LawfulMonad m] in
/-- If submitting and typing are of the kind whenever what commands have their session do is,
then so is all that they have it do, to any depth. -/
theorem Host.Bears.inner
    (hsubmit : ∀ i : Inner m, i.Bears allowed Ok → ∀ line, allowed (.submit line) →
      Ok _ (submitLine h i line).run)
    (htype : ∀ i : Inner m, i.Bears allowed Ok → ∀ bytes, allowed (.typeIn bytes) →
      Ok _ (bytes.forM (pressKey h i)).run)
    (depth : Nat) : (inner h depth).Bears allowed Ok := by
  induction depth with
  | zero =>
      rw [Session.inner]
      exact ⟨fun _ _ => hok.pure _, fun _ _ => hok.forM fun _ _ => hok.pure _⟩
  | succ depth ih =>
      rw [Session.inner]
      exact ⟨hsubmit _ ih, htype _ ih⟩

end

/-! Lines.  It is up to a kind of work whether it takes in whole commands. -/

/-- What a session uses to carry out lines is of a kind. -/
structure Host.Tends (h : Host m) (allowed : Action → Prop) (Seen : State → Prop)
    (Fit : ∀ α : Type, Work m α → Prop) : Prop extends Chains Fit where
  send : ∀ bytes, Fit _ (sendBytes h bytes)
  isOpen : Fit _ (liftM h.channel.isOpen)
  count : ∀ metric, Fit _ (liftM (h.count metric))
  state : ∀ {α : Type} {f : State → Work m α}, (∀ s, Seen s → Fit α (f s)) →
    Fit α ((liftM h.state : Work m State) >>= f)
  registry : ∀ {α : Type} {f : Registry Handler → Work m α}, (∀ r, r.Only allowed → Fit α (f r)) →
    Fit α ((liftM h.registry : Work m (Registry Handler)) >>= f)

/-- So is what it uses for logins. -/
structure Host.Greets (h : Host m) (Fit : ∀ α : Type, Work m α → Prop) : Prop where
  setLocalEcho : ∀ enabled, Fit _ (onChannel (h.channel.setLocalEcho enabled))
  note : ∀ username password accepted,
    Fit _ (liftM (h.note (.login h.id username password accepted)))
  setUsername : ∀ username, Fit _ (liftM (h.update ({ · with username })))
  validate : ∀ username password, Fit _ (liftM (h.validate username password))
  setStage : ∀ stage, stage ≠ .processing → Fit _ (liftM (h.setStage stage))

theorem Host.Bears.tends [LawfulMonad m] {h : Host m} (hok : h.Bears allowed Seen Ok) :
    h.Tends allowed Seen fun _ x => Ok _ x.run where
  toChains := hok.chains
  send bytes := hok.onChannel (hok.ask (.write bytes) trivial)
  isOpen := hok.lift (hok.ask .isOpen trivial)
  count metric := hok.lift (hok.ask (.count metric) trivial)
  state := hok.look
  registry := hok.consult

/-- A kind of work that takes in commands takes in logins if it takes in the changes to the
memory that come with them, and the verdicts. -/
theorem Host.Bears.greets [LawfulMonad m] {h : Host m} (hok : h.Bears allowed Seen Ok)
    (hname : ∀ username, Ok _ (h.update ({ · with username })))
    (hvalidate : ∀ username password, Ok _ (h.validate username password))
    (hstage : ∀ stage, stage ≠ .processing → Ok _ (h.setStage stage)) :
    h.Greets fun _ x => Ok _ x.run where
  setLocalEcho enabled := hok.onChannel (hok.ask (.setLocalEcho enabled) trivial)
  note username password accepted :=
    hok.lift (hok.ask (.note _) (Or.inr ⟨_, username, password, accepted, rfl⟩))
  setUsername username := hok.lift (hname username)
  validate username password := hok.lift (hvalidate username password)
  setStage stage hne := hok.lift (hstage stage hne)

section

variable {h : Host m} (hfit : h.Tends allowed Seen Fit)

include hfit

theorem Host.Tends.sendText (text : String) : Fit _ (sendText h text) :=
  hfit.send _

theorem Host.Tends.sendPrompt : Fit _ (sendPrompt h) :=
  hfit.state fun _ _ => hfit.sendText _

theorem Host.Tends.sendHelp : Fit _ (sendHelp h) :=
  hfit.registry fun _ _ => hfit.sendText _

theorem Host.Tends.endTurn : Fit _ (endTurn h) := by
  refine hfit.bind hfit.isOpen fun opened => ?_
  split
  · exact hfit.sendPrompt
  · exact hfit.pure _

theorem Host.Tends.dispatch {i : Inner m}
    (hrun : ∀ found, found.entry.handler.Only allowed → ∀ a, Fit _ (runCommand h i found a))
    (line : String) : Fit _ (dispatch h i line) := by
  refine hfit.registry fun r hr => ?_
  split
  · exact hfit.bind (hfit.count _) fun _ => hfit.sendText _
  · next found hfound => exact hrun found (hr.longest hfound) _

/-- A line, if dispatching one is of the kind, and so are adding to the history and stopping. -/
theorem Host.Tends.submitLine {i : Inner m} (hdispatch : ∀ line, Fit _ (Session.dispatch h i line))
    (hremember : ∀ line,
      Fit _ (liftM (h.update fun s => { s with history := s.history.add line })))
    (hstop : Fit _ (liftM (stop h))) (text : String) : Fit _ (submitLine h i text) := by
  have hcarry : ∀ line, Fit _ (carryOut h i line) := fun line => by
    unfold carryOut
    split
    · exact hfit.sendHelp
    · exact hfit.bind (hdispatch line) fun _ => hremember line
  unfold Session.submitLine
  dsimp only
  split
  · exact hfit.pure _
  split
  · exact hstop
  refine hfit.state fun s _ => ?_
  split
  · exact hcarry _
  · exact hfit.sendText _
  · exact hfit.sendText _

/-! Logins. -/

section

variable (hgreets : h.Greets Fit)

include hgreets

theorem Host.Tends.adjustEcho : Fit _ (adjustEcho h) :=
  hfit.state fun _ _ => hgreets.setLocalEcho _

variable [LawfulMonad m]

theorem Host.Tends.login (username password : String) : Fit _ (login h username password) := by
  have hwatch : ∀ accepted,
      Fit _ (liftM (h.watch (.login h.id username password accepted))) := fun accepted => by
    unfold Host.watch
    split
    · exact hgreets.note _ _ _
    · rw [liftM_pure]
      exact hfit.pure _
  rw [login_eq]
  refine hfit.bind (hgreets.validate _ _) fun accepted => hfit.bind (hwatch _) fun _ => ?_
  dsimp only
  split
  · refine hfit.bind (hfit.count _) fun _ => hfit.bind (hgreets.setUsername _) fun _ => ?_
    exact hfit.bind (hgreets.setStage _ (by decide)) fun _ => hfit.adjustEcho hgreets
  · refine hfit.bind (hfit.count _) fun _ => ?_
    exact hfit.bind (hgreets.setStage _ h.config.initialStage_ne_processing) fun _ =>
      hfit.adjustEcho hgreets

/-- A line that is part of a login. -/
theorem Host.Tends.heed (i : Inner m) {stage : Stage} (hstage : stage.isLogin = true)
    (line : String) : Fit _ (heed h i stage line) := by
  cases stage with
  | username =>
      unfold Session.heed
      dsimp only
      split
      · exact hfit.login hgreets _ _
      · refine hfit.bind (hgreets.setUsername _) fun _ => ?_
        exact hfit.bind (hgreets.setStage _ (by decide)) fun _ => hfit.adjustEcho hgreets
  | password =>
      refine hfit.state fun s _ => ?_
      exact hfit.bind (hgreets.setUsername _) fun _ => hfit.login hgreets _ _
  | commandEntry => cases hstage
  | processing => cases hstage

end

/-! Bytes.  It is up to the kind which lines it takes in. -/

theorem Host.Tends.answer {i : Inner m} {s : State} {line : String}
    (hheed : Fit _ (Session.heed h i s.stage line)) : Fit _ (answer h i s line) := by
  have hrest : Fit _ (Session.heed h i s.stage line >>= fun _ => Session.endTurn h) :=
    hfit.bind hheed fun _ => hfit.endTurn
  unfold Session.answer
  split
  · exact hfit.bind (hfit.sendText _) fun _ => hrest
  · exact hrest

variable [LawfulMonad m]

theorem Host.Tends.takeLine {i : Inner m} {line : String}
    (hheed : ∀ s, Seen s → Fit _ (Session.heed h i s.stage line)) :
    Fit _ (takeLine h i line) := by
  rw [takeLine_eq]
  exact hfit.state fun s hs => hfit.answer (hheed s hs)

theorem Host.Tends.takeLine_of_greets (hgreets : h.Greets Fit) {i : Inner m} {line : String}
    (hsubmit : Fit _ (Session.submitLine h i line)) : Fit _ (Session.takeLine h i line) := by
  refine hfit.takeLine fun s _ => ?_
  cases hstage : s.stage.isLogin with
  | true => exact hfit.heed hgreets i hstage line
  | false =>
      rw [heed_of_not_login h i hstage]
      exact hsubmit

theorem Host.Tends.pressKey {i : Inner m} (b : UInt8)
    (hend : Fit _ (liftM (h.change fun s => (s.endLine.2, s.endLine.1))))
    (hedit : Fit _ (liftM (h.change fun s => (s.shown h.config b, (s.edit h.config b).1))))
    (htake : ∀ line, Fit _ (Session.takeLine h i line)) : Fit _ (pressKey h i b) := by
  rw [pressKey_eq]
  split
  · refine hfit.bind hend fun line => ?_
    cases line with
    | none => exact hfit.pure _
    | some line => exact htake line
  · refine hfit.bind hedit fun echo => ?_
    split
    · exact hfit.send _
    · exact hfit.pure _

end

/-- Whatever a session makes of a byte, if the kind takes in all changes to the memory. -/
theorem Host.Bears.press [LawfulMonad m] {h : Host m} (hok : h.Bears allowed Seen Ok)
    (hgreets : h.Greets fun _ x => Ok _ x.run) (hstop : allowed .stop)
    (hstage : ∀ stage, Ok _ (h.setStage stage))
    (hremember : ∀ line, Ok _ (h.update fun s => { s with history := s.history.add line }))
    (hend : Ok _ (h.change fun s => (s.endLine.2, s.endLine.1)))
    (hedit : ∀ b, Ok _ (h.change fun s => (s.shown h.config b, (s.edit h.config b).1)))
    (b : UInt8) : Ok _ (press h b).run := by
  have hsubmit (i : Inner m) (hi : i.Bears allowed Ok) (line : String) :
      Ok _ (submitLine h i line).run :=
    hok.tends.submitLine (hok.tends.dispatch fun found honly a => hok.runCommand hstage hi honly a)
      (fun _ => hok.lift (hremember _)) (hok.lift (hok.stop hstop)) line
  have hpress (i : Inner m) (hi : i.Bears allowed Ok) (b : UInt8) : Ok _ (pressKey h i b).run :=
    hok.tends.pressKey b (hok.lift hend) (hok.lift (hedit b)) fun line =>
      hok.tends.takeLine_of_greets hgreets (hsubmit i hi line)
  have hinner := hok.inner (fun i hi line _ => hsubmit i hi line)
    (fun i hi _ _ => hok.forM fun b _ => hpress i hi b) h.bounds.nesting
  exact hpress _ hinner b

/-- Whatever a session says and hears once it was started, if answering a byte is of the kind. -/
theorem Host.Bears.converse [LawfulMonad m] {h : Host m} (hok : h.Bears allowed Seen Ok)
    (hread : ∀ count, Ok _ (h.channel.read count)) (hpress : ∀ b, Ok _ (Session.press h b).run)
    (limit : Nat) : Ok _ (converse h limit).run := by
  have hserve : ∀ limit, Ok _ (serveBytes h limit).run := by
    intro limit
    induction limit with
    | zero => exact hok.pure _
    | succ limit ih =>
        refine hok.seq (hok.seq (hok.lift (hread 1)) fun result => ?_) fun _ => ih
        cases result with
        | error e => exact hok.pure _
        | ok bytes => exact hpress _
  have hecho : Ok _ (adjustEcho h).run :=
    hok.look fun _ _ => hok.onChannel (hok.ask (.setLocalEcho _) trivial)
  exact hok.seq hecho fun _ => hok.seq hok.tends.sendPrompt fun _ => hserve limit

/-- A whole session. -/
theorem Host.Bears.live [LawfulMonad m] {h : Host m} (hok : h.Bears allowed Seen Ok)
    (hnote : ∀ n, allowed (.note n)) (hstop : allowed .stop)
    (hfinish : Ok _ (h.update ({ · with finished := true }))) {limit : Nat}
    (hconverse : Ok _ (Session.converse h limit).run) : Ok _ (live h limit) := by
  have hcount (metric : Metric) : Ok _ (h.count metric) := hok.ask (.count metric) trivial
  have hwatch (n : Note) : Ok _ (h.watch n) := by
    unfold Host.watch
    split
    · exact hok.ask (.note n) (Or.inl (hnote n))
    · exact hok.pure _
  refine hok.bind (hcount _) fun _ => hok.bind (hwatch _) fun _ => hok.bind hconverse fun _ => ?_
  refine hok.bind (hwatch _) fun _ => hok.bind (hok.ask .close hstop) fun _ => ?_
  exact hok.bind (hcount _) fun _ => hfinish

end RemoteConsole.Session
