/-
The one life of a session.  It starts and ends once; in between it takes bytes one by one, until
the first of its own calls on the channel fails; and once its channel is closed, nothing comes
or goes any more.
-/
import RemoteConsole.Proofs.Session.Secrecy
import RemoteConsole.Proofs.Session.Wires

namespace RemoteConsole.Session

variable {ρ : Type}

/-! What a session does by itself, and for its commands. -/

/-- What a session asks by itself. -/
def Query.IsOwn (i : Id) : Query → Prop
  | read limit => limit = 1
  | note n => ∃ username password accepted, n = .login i username password accepted
  | write _ | close | isOpen | setLocalEcho _ | validate _ _ | registry | count _ | awaitEnd =>
      True
  | setRegistry _ | sleep _ | broadcast _ | collect | removeSession _ => False

/-- A command was carried out: its handler did something, and what it had collected was sent.
The command comes to what the sending came to. -/
def Commanded (base : Host (Around ρ)) (i : Inner (Traced ρ)) (moments : List Moment)
    (outcome : Except Error Unit) : Prop :=
  ∃ (found : Match Handler) (a : Arguments) (s : Sitting ρ),
    let handled := handle base.traced i found a
      { s with state := { s.state with stage := .processing } }
    let sent := flush base.traced handled.result handled.state
    moments = .entered s.state .processing ::
        (handled.deeds ++ (sent.deeds ++ [.entered sent.state.state .commandEntry])) ∧
      outcome = sent.result.1

/-- A session goes on from one thing to the next until one of its own calls on the channel
fails, if one does; and that ends it. -/
inductive Tended (base : Host (Around ρ)) (i : Inner (Traced ρ)) :
    List Moment → Except Error Unit → Prop
  | done : Tended base i [] (.ok ())
  | asked {memory : State} {q : Query} {reply : q.Reply} {rest : List Moment}
      {result : Except Error Unit} :
      q.IsOwn base.id → (Moment.asked memory q reply).failure? = none →
        Tended base i rest result → Tended base i (.asked memory q reply :: rest) result
  | failed {memory : State} {q : Query} {reply : q.Reply} {e : Channel.Error} :
      q.IsOwn base.id → (Moment.asked memory q reply).failure? = some e →
        Tended base i [.asked memory q reply] (.error (.channel e))
  | entered {memory : State} {stage : Stage} {rest : List Moment} {result : Except Error Unit} :
      stage ≠ .processing → Tended base i rest result →
        Tended base i (.entered memory stage :: rest) result
  | command {moments rest : List Moment} {result : Except Error Unit} :
      Commanded base i moments (.ok ()) → Tended base i rest result →
        Tended base i (moments ++ rest) result
  | cut {moments : List Moment} {e : Error} :
      Commanded base i moments (.error e) → Tended base i moments (.error e)

theorem Tended.append {base : Host (Around ρ)} {i : Inner (Traced ρ)} {ms ns : List Moment}
    {r r' : Except Error Unit} (h : Tended base i ms r) (hr : r = .ok ())
    (h' : Tended base i ns r') : Tended base i (ms ++ ns) r' := by
  induction h with
  | done => exact h'
  | asked hown hfailure _ ih => exact .asked hown hfailure (ih hr)
  | failed _ _ => cases hr
  | entered hstage _ ih => exact .entered hstage (ih hr)
  | command hcommand _ ih =>
      rw [List.append_assoc]
      exact .command hcommand (ih hr)
  | cut _ => cases hr

/-- Work that goes on until one of the session's own calls on the channel fails. -/
def Attentive (base : Host (Around ρ)) (i : Inner (Traced ρ)) (α : Type)
    (x : Work (Traced ρ) α) : Prop :=
  ∀ s, Tended base i (x.run s).deeds ((x.run s).result.map fun _ => ())

section

variable {base : Host (Around ρ)} {i : Inner (Traced ρ)}

theorem attentive_chains : Chains (Attentive base i) where
  pure _ _ := .done
  bind {_ _ x f} hx hf s := by
    have hx := hx s
    rw [ExceptT.run_bind, Recorded.bind_run]
    cases hresult : (x.run s).result with
    | ok a =>
        rw [hresult] at hx
        exact hx.append rfl (hf a _)
    | error e =>
        rw [hresult] at hx
        dsimp only
        rw [Recorded.pure_run, List.append_nil]
        exact hx

/-- Asking something that is no call which the channel can fail. -/
theorem attentive_asking {q : Query} (hown : q.IsOwn base.id)
    (hnever : ∀ s reply, (Moment.asked s q reply).failure? = none) :
    Attentive base i q.Reply (liftM (asking base q)) :=
  fun _ => .asked hown (hnever _ _) .done

/-- A call that the channel can fail. -/
theorem attentive_onChannel {call : Traced ρ (Except Channel.Error Unit)}
    (hcall : ∀ s, ∃ q reply, q.IsOwn base.id ∧ (call s).deeds = [.asked s.state q reply] ∧
      (Moment.asked s.state q reply).failure? = failureOf (call s).result) :
    Attentive base i Unit (onChannel call) := by
  intro s
  obtain ⟨q, reply, hown, hdeeds, hfailure⟩ := hcall s
  rw [onChannel, ExceptT.run_mk, Recorded.bind_run, hdeeds]
  cases hresult : (call s).result with
  | ok _ =>
      rw [hresult] at hfailure
      exact .asked hown hfailure .done
  | error e =>
      rw [hresult] at hfailure
      exact .failed hown hfailure

theorem attentive_quiet {α : Type} {x : Traced ρ α} (hx : ∀ s, (x s).deeds = []) :
    Attentive base i α (liftM x) := by
  intro s
  change Tended base i ((x s).deeds ++ []) (.ok ())
  rw [hx]
  exact .done

variable (base i) in
theorem attentive_tends :
    base.traced.Tends (fun _ => True) (fun _ => True) (Attentive base i) where
  toChains := attentive_chains
  send bytes := attentive_onChannel fun _ => ⟨.write bytes, _, trivial, rfl, rfl⟩
  isOpen := attentive_asking (q := .isOpen) trivial fun _ _ => rfl
  count metric := attentive_asking (q := .count metric) trivial fun _ _ => rfl
  state hf _ := hf _ trivial _
  registry hf _ :=
    .asked (q := .registry) trivial rfl (hf _ (Registry.only_of_forall (fun _ => trivial) _) _)

theorem attentive_greets : base.traced.Greets (Attentive base i) where
  setLocalEcho enabled :=
    attentive_onChannel fun _ => ⟨.setLocalEcho enabled, _, trivial, rfl, rfl⟩
  note username password accepted :=
    attentive_asking (q := .note _) ⟨username, password, accepted, rfl⟩ fun _ _ => rfl
  setUsername _ := attentive_quiet fun _ => rfl
  validate username password :=
    attentive_asking (q := .validate username password) trivial fun _ _ => rfl
  setStage _ hne _ := .entered hne .done

/-- A command ends a session just if its output cannot be sent. -/
theorem attentive_runCommand (found : Match Handler) (a : Arguments) :
    Attentive base i Unit (runCommand base.traced i found a) := by
  intro s
  -- The count is the session's own; all else lies between the two changes of stage.
  let counted := asking base (.count .dispatched) s
  let handled := handle base.traced i found a
    { counted.state with state := { counted.state.state with stage := .processing } }
  let sent := flush base.traced handled.result handled.state
  let moments : List Moment := .entered s.state .processing ::
    (handled.deeds ++ (sent.deeds ++ [.entered sent.state.state .commandEntry]))
  have hcommand : Commanded base i moments sent.result.1 := ⟨found, a, counted.state, rfl, rfl⟩
  have hdeeds : ((runCommand base.traced i found a).run s).deeds =
      .asked s.state (.count .dispatched) () :: moments := by
    rw [runCommand_run, attend_eq]
    simp only [Recorded.bind_run, Recorded.pure_run, List.append_nil, List.append_assoc]
    rfl
  have hresult : ((runCommand base.traced i found a).run s).result = sent.result.1 := by
    rw [runCommand_run, attend_eq]
    rfl
  rw [hdeeds, hresult]
  cases hsent : sent.result.1 with
  | ok _ =>
      rw [hsent] at hcommand
      have hrest := Tended.command hcommand .done
      rw [List.append_nil] at hrest
      exact .asked (q := .count .dispatched) trivial rfl hrest
  | error e =>
      rw [hsent] at hcommand
      exact .asked (q := .count .dispatched) trivial rfl (.cut hcommand)

theorem attentive_pressKey (b : UInt8) : Attentive base i Unit (pressKey base.traced i b) := by
  have hfit := attentive_tends base i
  have hstop : Attentive base i Unit (liftM (stop base.traced)) := fun _ =>
    .asked (q := .close) trivial rfl (.asked (q := .awaitEnd) trivial rfl .done)
  refine hfit.pressKey b (attentive_quiet fun _ => rfl) (attentive_quiet fun _ => rfl)
    fun line => ?_
  refine hfit.takeLine_of_greets attentive_greets ?_
  exact hfit.submitLine (hfit.dispatch fun found _ => attentive_runCommand found)
    (fun _ => attentive_quiet fun _ => rfl) hstop line

end

/-! Bytes. -/

/-- A session reads bytes and answers them, one after the other; nothing is read in between. -/
inductive Took (base : Host (Around ρ)) : List UInt8 → Sitting ρ → List Moment → Sitting ρ → Prop
  | nil (s : Sitting ρ) : Took base [] s [] s
  | cons {bytes more : List UInt8} {s t u v : Sitting ρ} {read answer rest : List Moment} :
      asking base (.read 1) s = ⟨Except.ok bytes, t, read⟩ →
        (press base.traced (bytes.headD 0)).run t = ⟨.ok (), u, answer⟩ →
        (∀ moment ∈ answer, moment.isRead = false) → Took base more u rest v →
        Took base (bytes.headD 0 :: more) s (read ++ (answer ++ rest)) v

/-- A session takes no more bytes: as many were taken as could be, there is none to read, or
one was not answered to the end. -/
inductive Ends (base : Host (Around ρ)) :
    Nat → Sitting ρ → List Moment → Except Error Unit → Sitting ρ → Prop
  | full (s : Sitting ρ) : Ends base 0 s [] (.ok ()) s
  | unread {left : Nat} {e : Channel.Error} {s t : Sitting ρ} {read : List Moment} :
      asking base (.read 1) s = ⟨Except.error e, t, read⟩ →
        Ends base (left + 1) s read (.error (.channel e)) t
  | unanswered {left : Nat} {bytes : List UInt8} {e : Error} {s t u : Sitting ρ}
      {read answer : List Moment} :
      asking base (.read 1) s = ⟨Except.ok bytes, t, read⟩ →
        (press base.traced (bytes.headD 0)).run t = ⟨.error e, u, answer⟩ →
        (∀ moment ∈ answer, moment.isRead = false) →
        Ends base (left + 1) s (read ++ answer) (.error e) u

/-- A session greets its user, and takes bytes then. -/
inductive Conversed (base : Host (Around ρ)) (limit : Nat) :
    Sitting ρ → List Moment → Except Error Unit → Prop
  | unmet {e : Error} {s t : Sitting ρ} {greeting : List Moment} :
      (opening base.traced).run s = ⟨.error e, t, greeting⟩ →
        Conversed base limit s greeting (.error e)
  | met {taken : List UInt8} {left : Nat} {result : Except Error Unit} {s t u v : Sitting ρ}
      {greeting answers last : List Moment} :
      (opening base.traced).run s = ⟨.ok (), t, greeting⟩ → Took base taken t answers u →
        Ends base left u last result v → taken.length + left = limit →
        Conversed base limit s (greeting ++ (answers ++ last)) result

section

variable (base : Host (Around ρ))

theorem serveByte_run :
    (serveByte base.traced).run = (asking base (.read 1) >>= fun result =>
      (match (result : Except Channel.Error (List UInt8)) with
        | .error e => throw (.channel e)
        | .ok bytes => press base.traced (bytes.headD 0) : Work (Traced ρ) Unit).run) := by
  rw [serveByte, ExceptT.run_bind, ExceptT.run_liftM, bind_map_left]
  rfl

theorem serveByte_of_error {s t : Sitting ρ} {e : Channel.Error} {read : List Moment}
    (hread : asking base (.read 1) s = ⟨Except.error e, t, read⟩) :
    (serveByte base.traced).run s = ⟨.error (.channel e), t, read⟩ := by
  rw [serveByte_run, Recorded.bind_run, hread]
  exact congrArg (Ran.mk _ t) (List.append_nil read)

theorem serveByte_of_ok {s t : Sitting ρ} {bytes : List UInt8} {read : List Moment}
    (hread : asking base (.read 1) s = ⟨Except.ok bytes, t, read⟩) :
    (serveByte base.traced).run s =
      let r := (press base.traced (bytes.headD 0)).run t
      { r with deeds := read ++ r.deeds } := by
  rw [serveByte_run, Recorded.bind_run, hread]

theorem took_serveBytes (limit : Nat) (s : Sitting ρ) :
    ∃ taken left answers u last result v, Took base taken s answers u ∧
      Ends base left u last result v ∧ taken.length + left = limit ∧
      (serveBytes base.traced limit).run s = ⟨result, v, answers ++ last⟩ := by
  -- A read that fails or an answer that is cut short is the last thing; otherwise the rest is
  -- taken from where the answer left the session.
  induction limit generalizing s with
  | zero => exact ⟨[], 0, [], s, [], .ok (), s, .nil s, .full s, rfl, rfl⟩
  | succ limit ih =>
      rw [serveBytes, ExceptT.run_bind, Recorded.bind_run]
      rcases hread : asking base (.read 1) s with ⟨result, t, read⟩
      rcases (result : Except Channel.Error (List UInt8)) with e | bytes
      · rw [serveByte_of_error base hread]
        exact ⟨[], limit + 1, [], s, read, _, t, .nil s, .unread hread, Nat.zero_add _,
          congrArg (Ran.mk _ t) (List.append_nil read)⟩
      · have hanswer := unread_press base (bytes.headD 0) t
        rw [serveByte_of_ok base hread]
        rcases hpress : (press base.traced (bytes.headD 0)).run t with ⟨e | _, u, answer⟩
        · rw [hpress] at hanswer
          exact ⟨[], limit + 1, [], s, read ++ answer, _, u, .nil s,
            .unanswered hread hpress hanswer, Nat.zero_add _,
            congrArg (Ran.mk _ u) (List.append_nil _)⟩
        · rw [hpress] at hanswer
          obtain ⟨taken, left, answers, v, last, result, w, htook, hends, hlength, hserve⟩ := ih u
          refine ⟨bytes.headD 0 :: taken, left, read ++ (answer ++ answers), v, last, result, w,
            .cons hread hpress hanswer htook, hends, ?_, ?_⟩
          · rw [List.length_cons]
            omega
          · dsimp only
            rw [hserve]
            simp only [List.append_assoc]

theorem conversed_converse (limit : Nat) (s : Sitting ρ) :
    Conversed base limit s ((converse base.traced limit).run s).deeds
      ((converse base.traced limit).run s).result := by
  have hconverse : converse base.traced limit = opening base.traced >>= fun _ =>
      serveBytes base.traced limit := by
    rw [converse, opening, bind_assoc]
  rw [hconverse, ExceptT.run_bind, Recorded.bind_run]
  rcases hopening : (opening base.traced).run s with ⟨e | _, t, greeting⟩
  · dsimp only
    rw [Recorded.pure_run, List.append_nil]
    exact .unmet hopening
  · obtain ⟨taken, left, answers, u, last, result, v, htook, hends, hlength, hserve⟩ :=
      took_serveBytes base limit t
    dsimp only
    rw [hserve]
    exact .met hopening htook hends hlength

theorem attentive_serveByte :
    Attentive base base.traced.itself Unit (serveByte base.traced) := by
  intro s
  rcases hread : asking base (.read 1) s with ⟨result, t, read⟩
  have hmoment : read = [.asked s.state (.read 1) result] := by
    have hdeeds : (asking base (.read 1) s).deeds =
        [.asked s.state (.read 1) (asking base (.read 1) s).result] := rfl
    rw [hread] at hdeeds
    exact hdeeds
  rcases (result : Except Channel.Error (List UInt8)) with e | bytes
  · rw [serveByte_of_error base hread, hmoment]
    exact .failed (q := .read 1) rfl rfl
  · rw [serveByte_of_ok base hread, hmoment]
    exact .asked (q := .read 1) rfl rfl (attentive_pressKey (bytes.headD 0) t)

theorem attentive_converse (limit : Nat) :
    Attentive base base.traced.itself Unit (converse base.traced limit) := by
  have hfit := attentive_tends base base.traced.itself
  have hserve : ∀ limit, Attentive base base.traced.itself Unit
      (serveBytes base.traced limit) := by
    intro limit
    induction limit with
    | zero => exact hfit.pure ()
    | succ limit ih => exact hfit.bind (attentive_serveByte base) fun _ => ih
  exact hfit.bind (hfit.adjustEcho attentive_greets) fun _ =>
    hfit.bind hfit.sendPrompt fun _ => hserve limit

/-- A session ends with the first of its own calls on the channel that fails. -/
theorem tended_converse (limit : Nat) (s : Sitting ρ) :
    Tended base base.traced.itself ((converse base.traced limit).run s).deeds
      ((converse base.traced limit).run s).result := by
  have htended := attentive_converse base limit s
  have hunit : ∀ result : Except Error Unit, result.map (fun _ => ()) = result := by
    rintro (e | _) <;> rfl
  rwa [hunit] at htended

end

/-! Exit lines. -/

theorem Config.isExit_empty (c : Config) : c.isExit "" = false := by
  have hempty : ∀ word : String, sameLetters word "" = true → word = "" := fun word hsame =>
    String.toList_injective (List.map_eq_nil_iff.mp (of_decide_eq_true hsame))
  refine List.any_eq_false.mpr fun word _ hword => ?_
  obtain ⟨hne, hsame⟩ := Bool.and_eq_true_iff.mp hword
  exact of_decide_eq_true hne (hempty word hsame)

/-- An exit line stops a session. -/
theorem submitLine_of_isExit {m : Type → Type u} [Monad m] (h : Host m) (i : Inner m)
    {text : String} (hexit : h.config.isExit (Text.trim text) = true) :
    submitLine h i text = liftM (stop h) := by
  have hne : Text.trim text ≠ "" := fun hempty => by
    rw [hempty, Config.isExit_empty] at hexit
    cases hexit
  unfold submitLine
  dsimp only
  rw [if_neg hne, if_pos hexit]

/-! Whole lives. -/

/-- What a session does once it was claimed, before it says anything. -/
def setOut {m : Type → Type u} [Monad m] (h : Host m) : m Unit := do
  h.count .started
  h.watch (.started h.id)

/-- What it does when all is said, before it counts as finished. -/
def windUp {m : Type → Type u} [Monad m] (h : Host m) : m Unit := do
  h.watch (.ended h.id)
  let _ ← h.channel.close
  h.count .stopped

theorem live_eq {m : Type → Type u} [Monad m] [LawfulMonad m] (h : Host m) (limit : Nat) :
    live h limit = (do
      setOut h
      let _ ← (converse h limit).run
      windUp h
      h.update ({ · with finished := true })) := by
  simp only [live, setOut, windUp, bind_assoc]

/-- What a session tells of when it is watched. -/
def Host.tells {m : Type → Type u} (h : Host m) (n : Note) : List Query :=
  if h.hooks.watched then [.note n] else []

/-- The life of a session that was claimed.  It starts and ends once, and talks in between; it
counts as running all the time, and as finished only when all is over. -/
structure Lived (base : Host (Around ρ)) (limit : Nat) (s : Sitting ρ)
    (r : Ran (Sitting ρ) Moment Unit) : Prop where
  split : ∃ (start talk finish : List Moment) (result : Except Error Unit),
    r.deeds = start ++ (talk ++ finish) ∧
      start.map Moment.query? =
        (Query.count .started :: base.tells (.started base.id)).map some ∧
      finish.map Moment.query? =
        (base.tells (.ended base.id) ++ [Query.close, Query.count .stopped]).map some ∧
      Conversed base limit (setOut base.traced s).state talk result ∧
      Tended base base.traced.itself talk result
  /-- Nothing else tells of a start or an end, if no command does. -/
  told : ∀ Good, base.Modest Good → Good s.world → r.deeds.filterMap Moment.lifeNote? =
    if base.hooks.watched then [.started base.id, .ended base.id] else []
  during : ∀ moment ∈ r.deeds, moment.memory.lifetime = s.state.lifetime
  finished : r.state.state.lifetime = (s.state.running, true)

theorem Lived.exists_isClose {base : Host (Around ρ)} {limit : Nat} {s : Sitting ρ}
    {r : Ran (Sitting ρ) Moment Unit} (h : Lived base limit s r) :
    ∃ moment ∈ r.deeds, moment.isClose = true := by
  obtain ⟨start, talk, finish, result, hdeeds, -, hfinish, -⟩ := h.split
  have hclose : some Query.close ∈ finish.map Moment.query? := by
    rw [hfinish]
    simp
  obtain ⟨moment, hmem, hquery⟩ := List.mem_map.mp hclose
  refine ⟨moment, ?_, ?_⟩
  · rw [hdeeds]
    exact List.mem_append_right _ (List.mem_append_right _ hmem)
  · cases moment with
    | asked memory q reply =>
        cases hquery
        rfl
    | entered memory stage => cases hquery

section

variable (base : Host (Around ρ))

theorem sparesLifetime_watch (n : Note) : SparesLifetime _ (base.traced.watch n) := by
  unfold Host.watch
  split
  · exact sparesLifetime_asking base (.note n)
  · exact spares_joins.pure ()

theorem query?_watch (n : Note) (s : Sitting ρ) :
    (base.traced.watch n s).deeds.map Moment.query? = (base.tells n).map some := by
  unfold Host.watch Host.tells
  by_cases hwatched : base.hooks.watched = true
  · have htraced : base.traced.hooks.watched = true := hwatched
    rw [if_pos htraced, if_pos hwatched]
    rfl
  · have htraced : ¬ base.traced.hooks.watched = true := hwatched
    rw [if_neg htraced, if_neg hwatched]
    rfl

theorem query?_setOut (s : Sitting ρ) :
    (setOut base.traced s).deeds.map Moment.query? =
      (Query.count .started :: base.tells (.started base.id)).map some := by
  rw [setOut, Recorded.bind_run, List.map_append, query?_watch]
  rfl

theorem query?_windUp (s : Sitting ρ) :
    (windUp base.traced s).deeds.map Moment.query? =
      (base.tells (.ended base.id) ++ [Query.close, Query.count .stopped]).map some := by
  rw [windUp, Recorded.bind_run, List.map_append, query?_watch, List.map_append]
  rfl

theorem sparesLifetime_setOut : SparesLifetime _ (setOut base.traced) :=
  spares_joins.bind (sparesLifetime_asking base (.count .started)) fun _ =>
    sparesLifetime_watch base _

theorem sparesLifetime_windUp : SparesLifetime _ (windUp base.traced) :=
  spares_joins.bind (sparesLifetime_watch base _) fun _ =>
    spares_joins.bind (sparesLifetime_asking base .close) fun _ =>
      sparesLifetime_asking base (.count .stopped)

theorem filterMap_lifeNote? {moments : List Moment} {qs : List Query}
    (h : moments.map Moment.query? = qs.map some) :
    moments.filterMap Moment.lifeNote? = qs.filterMap Query.lifeNote? := by
  have hmoments : moments.filterMap Moment.lifeNote? =
      (moments.map Moment.query?).filterMap fun q => q.bind Query.lifeNote? := by
    rw [List.filterMap_map]
    rfl
  rw [hmoments, h, List.filterMap_map]
  rfl

theorem good_setOut {Good : ρ → Prop} (hmodest : base.Modest Good) {s : Sitting ρ}
    (hs : Good s.world) : Good (setOut base.traced s).state.world := by
  have hcounted : Good (asking base (.count .started) s).state.world :=
    hmodest.ask (.count .started) _ _ trivial hs
  change Good (base.traced.watch _ (asking base (.count .started) s).state).state.world
  unfold Host.watch
  split
  · exact hmodest.note _ _ _ hcounted
  · exact hcounted

theorem lived_live (limit : Nat) (s : Sitting ρ) :
    Lived base limit s (live base.traced limit s) := by
  let start := setOut base.traced s
  let talk := (converse base.traced limit).run start.state
  let finish := windUp base.traced talk.state
  have hlive : live base.traced limit s =
      ⟨(), { finish.state with state := { finish.state.state with finished := true } },
        start.deeds ++ (talk.deeds ++ finish.deeds)⟩ := by
    rw [live_eq, Recorded.bind_run]
    refine congrArg (Ran.mk _ _) (congrArg (start.deeds ++ ·) (congrArg (talk.deeds ++ ·) ?_))
    exact List.append_nil _
  obtain ⟨-, hstart, hstarted⟩ := sparesLifetime_setOut base s trivial
  obtain ⟨-, htalk, htalked⟩ := sparesLifetime_converse base limit start.state trivial
  obtain ⟨-, hfinish, hfinished⟩ := sparesLifetime_windUp base talk.state trivial
  rw [hlive]
  refine ⟨⟨start.deeds, talk.deeds, finish.deeds, talk.result, rfl,
    query?_setOut base s, query?_windUp base talk.state, conversed_converse base limit _,
    tended_converse base limit _⟩, fun Good hmodest hs => ?_, ?_, ?_⟩
  · have htold : talk.deeds.filterMap Moment.lifeNote? = [] :=
      lifeNote?_converse hmodest limit (good_setOut base hmodest hs)
    rw [List.filterMap_append, List.filterMap_append, htold,
      filterMap_lifeNote? (query?_setOut base s),
      filterMap_lifeNote? (query?_windUp base talk.state)]
    unfold Host.tells
    split <;> rfl
  · rw [hstart] at htalk htalked
    rw [htalk] at hfinished
    exact List.forall_mem_append.mpr ⟨hstarted, List.forall_mem_append.mpr ⟨htalked, hfinished⟩⟩
  · have hrunning : finish.state.state.lifetime = s.state.lifetime :=
      hfinish.trans (htalk.trans hstart)
    exact congrArg (fun lifetime => (lifetime.1, true)) hrunning

/-- A session is claimed if it is open and was not claimed before; either way it does no more
than look whether it is open. -/
theorem claim_run (s : Sitting ρ) :
    (claim base.traced).run s =
      let looked := base.traced.channel.isOpen s
      if looked.result = false then ⟨.error .notOpen, looked.state, looked.deeds⟩
      else if s.state.running = true then
        ⟨.error (.alreadyRunning base.id), looked.state, looked.deeds⟩
      else ⟨.ok (), { looked.state with state := { s.state with running := true } },
        looked.deeds⟩ := by
  rw [claim, ExceptT.run_bind, ExceptT.run_liftM, bind_map_left, Recorded.bind_run]
  have hstate : (base.traced.channel.isOpen s).state.state = s.state := rfl
  rw [← hstate]
  rcases base.traced.channel.isOpen s with ⟨opened, t, moments⟩
  cases opened with
  | false => exact congrArg (Ran.mk _ _) (List.append_nil moments)
  | true =>
      rcases t with
        ⟨⟨stage, typed, lineEnded, username, history, requireEcho, running, finished⟩, w⟩
      cases running with
      | false => exact congrArg (Ran.mk _ _) (List.append_nil moments)
      | true => exact congrArg (Ran.mk _ _) (List.append_nil moments)

/-- A session that was claimed cannot be claimed again, whether it is over or not. -/
theorem run_again (limit : Nat) {t : Sitting ρ} (ht : t.state.running = true) :
    let looked := base.traced.channel.isOpen t
    (run base.traced limit).run t =
      ⟨.error (if looked.result then .alreadyRunning base.id else .notOpen), looked.state,
        looked.deeds⟩ := by
  rw [run, ExceptT.run_bind, Recorded.bind_run, claim_run]
  rcases base.traced.channel.isOpen t with ⟨opened, u, moments⟩
  cases opened with
  | false => exact congrArg (Ran.mk _ _) (List.append_nil moments)
  | true =>
      dsimp only
      rw [if_neg Bool.noConfusion, if_pos ht]
      exact congrArg (Ran.mk _ _) (List.append_nil moments)

theorem run_new (limit : Nat) {s : Sitting ρ} (hs : s.state.running = false)
    (hopen : (base.traced.channel.isOpen s).result = true) :
    (run base.traced limit).run s =
      let life := live base.traced limit
        { (base.traced.channel.isOpen s).state with state := { s.state with running := true } }
      ⟨.ok (), life.state, .asked s.state .isOpen true :: life.deeds⟩ := by
  have hdeeds : (base.traced.channel.isOpen s).deeds =
      [.asked s.state .isOpen (base.traced.channel.isOpen s).result] := rfl
  rw [run, ExceptT.run_bind, Recorded.bind_run, claim_run]
  dsimp only
  rw [hdeeds, hopen, if_neg Bool.noConfusion, if_neg (by rw [hs]; exact Bool.noConfusion)]
  exact congrArg (Ran.mk _ _)
    (congrArg (Moment.asked s.state .isOpen true :: ·) (List.append_nil _))

end

/-- A session has one life.  Claimed once, it starts, talks, ends and is closed, and counts as
finished after that.  While it lives, and for ever after, it cannot be claimed again.  What
closes its channel, be it the end, a command that stops the session or an exit line, is the
last of what comes and goes; and that is so for Telnet over any channel, whatever it has
decoded. -/
theorem one_life (base : Host (Around ρ)) (limit : Nat) (s : Sitting ρ)
    (hopen : (base.traced.channel.isOpen s).result = true)
    (hnew : s.state.lifetime = (false, false)) :
    let claimed : Sitting ρ :=
      { (base.traced.channel.isOpen s).state with state := { s.state with running := true } }
    let life := live base.traced limit claimed
    (run base.traced limit).run s =
        ⟨.ok (), life.state, .asked s.state .isOpen true :: life.deeds⟩ ∧
      claimed.state.lifetime = (true, false) ∧ Lived base limit claimed life ∧
      (∀ (again : Nat) (t : Sitting ρ), t.state.running = true →
        let looked := base.traced.channel.isOpen t
        (run base.traced again).run t =
          ⟨.error (if looked.result then .alreadyRunning base.id else .notOpen), looked.state,
            looked.deeds⟩) ∧
      (∀ i a t, ∃ moment ∈ (act base.traced i a .stop t).deeds, moment.isClose = true) ∧
      (∀ i text t, base.config.isExit (Text.trim text) = true →
        ∃ moment ∈ ((submitLine base.traced i text).run t).deeds, moment.isClose = true) ∧
      (∀ Shut, base.Closes Shut →
        (life.deeds.Pairwise fun moment later =>
          moment.isClose = true → later.isTraffic = false) ∧
        ∀ again, ((run base.traced again).run life.state).result = .error .notOpen) ∧
      ∀ (hold : Telnet.LinkHold (StateM ρ)) (below : Channel (StateM ρ)) Shut,
        below.Closes Shut → (hold.channel below).Closes Shut := by
  intro claimed life
  have hlived : Lived base limit claimed life := lived_live base limit claimed
  obtain ⟨hrunning, hfinished⟩ := Prod.mk.inj hnew
  refine ⟨run_new base limit hrunning hopen, Prod.ext rfl hfinished, hlived,
    fun again t ht => run_again base again ht, fun i a t => ?_, fun i text t hexit => ?_,
    fun Shut hcloses => ⟨?_, fun again => ?_⟩, fun hold below Shut hbelow => hbelow.telnet hold⟩
  · exact ⟨_, List.mem_cons_self, rfl⟩
  · rw [submitLine_of_isExit base.traced i hexit]
    exact ⟨_, List.mem_cons_self, rfl⟩
  · exact (sealed_live hcloses limit claimed).2.2
  · have hclosed : ∃ moment ∈ life.deeds, moment.isClose = true := hlived.exists_isClose
    have hshut : Shut life.state.world := (sealed_live hcloses limit claimed).2.1 hclosed
    have hclaimed : life.state.state.running = true := congrArg Prod.fst hlived.finished
    have hopen : (base.traced.channel.isOpen life.state).result = false :=
      ((hcloses.channel life.state.state).isOpen _ hshut).1
    rw [run_again base again hclaimed]
    dsimp only
    rw [hopen]
    rfl

/-- A desk with Telnet, to which more comes at once than an exit line. -/
def hasty : Desk :=
  { Desk.initial ⟨1⟩ {} {} (some {}) {} with
    transport := { queue := [.ok (Text.encode "exit\rhelp\r")] } }

/-- What came after the line was decoded, and nobody reads it. -/
theorem one_life_hasty :
    let ran := (run hasty.around.traced 16).run ⟨.initial hasty.around.config, hasty⟩
    ran.deeds.filterMap Moment.lifeNote? = [.started ⟨1⟩, .ended ⟨1⟩] ∧
      (ran.deeds.Pairwise fun moment later => moment.isClose = true → later.isTraffic = false) ∧
      ((run hasty.around.traced 16).run ran.state).result = .error .notOpen ∧
      ran.state.world.link.map Telnet.Link.pending = some (Text.encode "help\r") := by
  have hcommands : hasty.registry.Only Action.IsModest := fun _ hmem => (List.not_mem_nil hmem).elim
  obtain ⟨hran, -, hlived, -, -, -, hcloses, -⟩ :=
    one_life hasty.around 16 ⟨.initial hasty.around.config, hasty⟩ rfl rfl
  obtain ⟨hpairs, hover⟩ := hcloses _ (Desk.closes_around hasty)
  have htold := hlived.told _ (Desk.modest_around hasty) hcommands
  refine ⟨?_, ?_, ?_, by decide +kernel⟩ <;> rw [hran]
  · exact (List.filterMap_cons_none rfl).trans htold
  · exact List.pairwise_cons.mpr ⟨fun _ _ hclose => Bool.noConfusion hclose, hpairs⟩
  · exact hover 16

end RemoteConsole.Session
