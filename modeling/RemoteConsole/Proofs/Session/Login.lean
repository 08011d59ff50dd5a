/-
Logging in.  Until an attempt to log in is accepted a session does nothing but ask for the
next line, and once one is it never asks for a login again, whatever is typed and whatever
commands do.
-/
import RemoteConsole.Proofs.Session.Attempts
import RemoteConsole.Proofs.Session.Sitting
import RemoteConsole.Session.Desk

namespace RemoteConsole.Session

variable {ρ : Type}

/-! What is done before a login, and after. -/

/-- A text as it is sent. -/
def Config.encoded (c : Config) (text : String) : List UInt8 :=
  Text.encode (Text.withNewline c.newline text)

/-- A login may be decided so. -/
def Host.Answers (base : Host (Around ρ)) (username password : String) (accepted : Bool) :
    Prop :=
  ∃ s w, (((base.validate username password).run s).run w).1 = accepted

/-- Before anyone has logged in, a session writes no more than line ends, the prompts of the
login and what shows typing, refuses logins, and looks at no command. -/
def Deed.IsBefore (base : Host (Around ρ)) : Deed → Prop
  | wrote bytes =>
      bytes = base.config.encoded "\n" ∨
        (∃ stage : Stage, stage.isLogin = true ∧
          bytes = base.config.encoded (promptOf base.config stage)) ∨
        ∃ echo : Echo, bytes = echo.bytes
  | setEcho _ | looked _ => True
  | entered stage => stage.isLogin = true
  | tried username password accepted =>
      accepted = false ∧ base.Answers username password false
  | counted metric => metric = .loginFailures
  | noted n => ∃ username password, n = .login base.id username password false
  | closed | read _ _ | consulted => False

/-- Once someone has logged in, no login is decided on.  Bytes are answered without more being
read. -/
def Deed.IsAfter : Deed → Prop
  | tried _ _ _ | read _ _ => False
  | entered stage => stage.isLogin = false
  | _ => True

/-- The logins that were decided on. -/
def tries (deeds : List Deed) : List (String × String × Bool) :=
  deeds.filterMap fun
    | .tried username password accepted => some (username, password, accepted)
    | _ => none

@[simp] theorem tries_append (ds es : List Deed) : tries (ds ++ es) = tries ds ++ tries es :=
  List.filterMap_append

/-- Type bytes, whether or not they fail. -/
def typeAll {m : Type → Type u} [Monad m] (h : Host m) : List UInt8 → m Unit
  | [] => return ()
  | b :: rest => do
      let _ ← (press h b).run
      typeAll h rest

/-- What was done while every attempt was refused. -/
structure Refused (base : Host (Around ρ)) (attempts : List (String × String))
    (deeds : List Deed) : Prop where
  tries : tries deeds = attempts.map fun a => (a.1, a.2, false)
  before : ∀ d ∈ deeds, d.IsBefore base

/-- What was done up to the first attempt that was accepted, and from then on. -/
def Admitted (base : Host (Around ρ)) (attempts : List (String × String))
    (deeds : List Deed) : Prop :=
  ∃ (first rest : List (String × String)) (username password : String)
      (before after : List Deed),
    attempts = first ++ (username, password) :: rest ∧
      deeds = before ++ .tried username password true :: after ∧
      Refused base first before ∧ base.Answers username password true ∧ ∀ d ∈ after, d.IsAfter

section

variable {base : Host (Around ρ)} {first rest : List (String × String)} {ds es : List Deed}

theorem Refused.of_not_tried (hds : ∀ d ∈ ds, d.IsBefore base) (htries : Session.tries ds = []) :
    Refused base [] ds :=
  ⟨htries, hds⟩

theorem Refused.append (hds : Refused base first ds) (hes : Refused base rest es) :
    Refused base (first ++ rest) (ds ++ es) where
  tries := by rw [tries_append, hds.tries, hes.tries, List.map_append]
  before := List.forall_mem_append.mpr ⟨hds.before, hes.before⟩

theorem Refused.admitted (hds : Refused base first ds) (hes : Admitted base rest es) :
    Admitted base (first ++ rest) (ds ++ es) := by
  obtain ⟨earlier, later, username, password, before, after, rfl, rfl, hbefore, hyes, hafter⟩ := hes
  exact ⟨first ++ earlier, later, username, password, ds ++ before, after,
    (List.append_assoc _ _ _).symm, (List.append_assoc _ _ _).symm, hds.append hbefore, hyes,
    hafter⟩

theorem Admitted.append (hds : Admitted base first ds) (hes : ∀ d ∈ es, d.IsAfter)
    (rest : List (String × String)) : Admitted base (first ++ rest) (ds ++ es) := by
  obtain ⟨earlier, later, username, password, before, after, rfl, rfl, hbefore, hyes, hafter⟩ := hds
  exact ⟨earlier, later ++ rest, username, password, before, after ++ es, by simp, by simp,
    hbefore, hyes, List.forall_mem_append.mpr ⟨hafter, hes⟩⟩

end

/-! A channel that stays open and takes everything. -/

/-- The channel stays open and takes everything in worlds that are as assumed, and the
calls before a login keep to such worlds. -/
structure Host.Accepts (base : Host (Around ρ)) (Good : ρ → Prop) : Prop where
  write : ∀ bytes s w, Good w →
    ((base.channel.write bytes s).run w).1 = .ok () ∧ Good ((base.channel.write bytes s).run w).2
  setLocalEcho : ∀ enabled s w, Good w →
    ((base.channel.setLocalEcho enabled s).run w).1 = .ok () ∧
      Good ((base.channel.setLocalEcho enabled s).run w).2
  isOpen : ∀ s w, Good w →
    ((base.channel.isOpen s).run w).1 = true ∧ Good ((base.channel.isOpen s).run w).2
  validate : ∀ username password s w, Good w →
    Good ((base.validate username password s).run w).2
  note : ∀ n s w, Good w → Good ((base.note n s).run w).2
  count : ∀ metric s w, Good w → Good ((base.count metric s).run w).2

/-- Work comes to a result, a memory and a record, in a world that is as assumed. -/
def Comes {α : Type} (Good : ρ → Prop) (x : Course ρ α) (s : Sitting ρ) (a : α) (state : State)
    (deeds : List Deed) : Prop :=
  ∃ w, Good w ∧ x s = ⟨a, ⟨state, w⟩, deeds⟩

section

variable {Good : ρ → Prop} {s : Sitting ρ} {state state' : State} {ds es : List Deed}

theorem Comes.done {α : Type} (a : α) (hs : Good s.world) :
    Comes Good (pure a) s a s.state [] :=
  ⟨s.world, hs, rfl⟩

theorem Comes.bind {α β : Type} {x : Course ρ α} {f : α → Course ρ β} {a : α} {b : β}
    (hx : Comes Good x s a state ds)
    (hf : ∀ w, Good w → Comes Good (f a) ⟨state, w⟩ b state' es) :
    Comes Good (x >>= f) s b state' (ds ++ es) := by
  obtain ⟨w, hw, hx⟩ := hx
  obtain ⟨w', hw', hf⟩ := hf w hw
  exact ⟨w', hw', by rw [Recorded.bind_run, hx]; dsimp only; rw [hf]⟩

theorem Comes.seq {α β : Type} {x : Work (Course ρ) α} {f : α → Work (Course ρ) β} {a : α}
    {b : Except Error β} (hx : Comes Good x.run s (.ok a) state ds)
    (hf : ∀ w, Good w → Comes Good (f a).run ⟨state, w⟩ b state' es) :
    Comes Good (x >>= f).run s b state' (ds ++ es) := by
  rw [ExceptT.run_bind]
  exact hx.bind hf

theorem Comes.lift {α : Type} {x : Course ρ α} {a : α} (hx : Comes Good x s a state ds) :
    Comes Good (liftM x : Work (Course ρ) α).run s (.ok a) state ds := by
  have hmap : Comes Good (x >>= fun a => pure (Except.ok a : Except Error α)) s (.ok a) state
      (ds ++ []) := hx.bind fun _ hw => Comes.done _ hw
  rw [List.append_nil] at hmap
  exact hmap

end

/-! What is done in answer to a byte. -/

/-- The memory once a login is decided on. -/
def State.decided (s : State) (c : Config) (username : String) (accepted : Bool) : State :=
  if accepted then { s with username, stage := .commandEntry }
  else { s with stage := c.initialStage }

/-- What is done once a login is decided on. -/
def decision (base : Host (Around ρ)) (s : State) (username password : String)
    (accepted : Bool) : List Deed :=
  let next := s.decided base.config username accepted
  .tried username password accepted ::
    ((if base.hooks.watched then [.noted (.login base.id username password accepted)] else []) ++
      [.counted (if accepted then .logins else .loginFailures), .entered next.stage,
        .setEcho next.wantsLocalEcho])

section

variable {base : Host (Around ρ)} {Good : ρ → Prop} {s : Sitting ρ} (hs : Good s.world)

include hs

theorem comes_state : Comes Good base.seated.state s s.state s.state [] :=
  ⟨s.world, hs, rfl⟩

theorem comes_update (f : State → State) :
    Comes Good (base.seated.update f) s () (f s.state) [] :=
  ⟨s.world, hs, rfl⟩

theorem comes_setStage (stage : Stage) :
    Comes Good (base.seated.setStage stage) s () { s.state with stage } [.entered stage] :=
  ⟨s.world, hs, rfl⟩

theorem comes_sendBytes_of_write {bytes : List UInt8}
    (hwrite : ∀ s w, Good w → ((base.channel.write bytes s).run w).1 = .ok () ∧
      Good ((base.channel.write bytes s).run w).2) :
    Comes Good (sendBytes base.seated bytes).run s (.ok ()) s.state [.wrote bytes] := by
  have hwrite : Comes Good (base.seated.channel.write bytes) s (.ok ()) s.state
      [.wrote bytes] := by
    obtain ⟨hok, hgood⟩ := hwrite s.state s.world hs
    exact ⟨_, hgood, congrArg (fun result => Ran.mk result _ _) hok⟩
  exact hwrite.bind fun w hw => Comes.done _ hw

variable (haccepts : base.Accepts Good)

include haccepts

theorem comes_sendBytes (bytes : List UInt8) :
    Comes Good (sendBytes base.seated bytes).run s (.ok ()) s.state [.wrote bytes] :=
  comes_sendBytes_of_write hs (haccepts.write bytes)

theorem comes_sendText (text : String) :
    Comes Good (sendText base.seated text).run s (.ok ()) s.state
      [.wrote (base.config.encoded text)] :=
  comes_sendBytes hs haccepts _

theorem comes_adjustEcho :
    Comes Good (adjustEcho base.seated).run s (.ok ()) s.state
      [.setEcho s.state.wantsLocalEcho] := by
  refine Comes.seq (comes_state hs).lift fun w hw => ?_
  have hset : Comes Good (base.seated.channel.setLocalEcho s.state.wantsLocalEcho)
      ⟨s.state, w⟩ (.ok ()) s.state [.setEcho s.state.wantsLocalEcho] := by
    obtain ⟨hok, hgood⟩ := haccepts.setLocalEcho s.state.wantsLocalEcho s.state w hw
    exact ⟨_, hgood, congrArg (fun result => Ran.mk result _ _) hok⟩
  exact hset.bind fun w hw => Comes.done _ hw

theorem comes_endTurn :
    Comes Good (endTurn base.seated).run s (.ok ()) s.state
      [.looked true, .wrote (base.config.encoded (promptOf base.config s.state.stage))] := by
  have hlook : Comes Good base.seated.channel.isOpen s true s.state [.looked true] := by
    obtain ⟨hopen, hgood⟩ := haccepts.isOpen s.state s.world hs
    exact ⟨_, hgood, congrArg (fun opened => Ran.mk opened _ [Deed.looked opened]) hopen⟩
  refine Comes.seq hlook.lift fun w hw => ?_
  exact Comes.seq (comes_state hw).lift fun w hw => comes_sendText hw haccepts _

theorem comes_watch (n : Note) :
    Comes Good (base.seated.watch n) s () s.state
      (if base.hooks.watched then [.noted n] else []) := by
  change Comes Good (if base.hooks.watched then base.seated.note n else pure ()) _ _ _ _
  split
  · exact ⟨_, haccepts.note n s.state s.world hs, rfl⟩
  · exact Comes.done () hs

theorem comes_count (metric : Metric) :
    Comes Good (base.seated.count metric) s () s.state [.counted metric] :=
  ⟨_, haccepts.count metric s.state s.world hs, rfl⟩

theorem comes_validate (username password : String) :
    ∃ accepted, base.Answers username password accepted ∧
      Comes Good (base.seated.validate username password) s accepted s.state
        [.tried username password accepted] :=
  ⟨_, ⟨s.state, s.world, rfl⟩, _, haccepts.validate username password s.state s.world hs, rfl⟩

theorem comes_login (username password : String) :
    ∃ accepted, base.Answers username password accepted ∧
      Comes Good (login base.seated username password).run s (.ok ())
        (s.state.decided base.config username accepted)
        (decision base s.state username password accepted) := by
  obtain ⟨accepted, hanswers, hvalidate⟩ := comes_validate hs haccepts username password
  refine ⟨accepted, hanswers, ?_⟩
  refine Comes.seq hvalidate.lift fun w hw => ?_
  refine Comes.seq (comes_watch hw haccepts _).lift fun w hw => ?_
  cases accepted with
  | true =>
      refine Comes.seq (comes_count hw haccepts _).lift fun w hw => ?_
      refine Comes.seq (comes_update hw _).lift fun w hw => ?_
      refine Comes.seq (comes_setStage hw _).lift fun w hw => ?_
      exact comes_adjustEcho hw haccepts
  | false =>
      refine Comes.seq (comes_count hw haccepts _).lift fun w hw => ?_
      refine Comes.seq (comes_setStage hw _).lift fun w hw => ?_
      exact comes_adjustEcho hw haccepts

end

/-! Taking a line before a login. -/

/-- Where a session stands that had a user name or not, once it has done something: no one
got in, or someone did. -/
def Stands (base : Host (Around ρ)) (history : Log String) (name : Option String)
    (attempts : List (String × String)) (t : State) (ds : List Deed) : Prop :=
  t.AtLogin base.config name ∧ t.history = history ∧ Refused base attempts ds ∨
    t.stage = .commandEntry ∧ Admitted base attempts ds

theorem Stands.after {base : Host (Around ρ)} {history : Log String} {t : State}
    {name : Option String} {attempts : List (String × String)} {ds es : List Deed}
    (hstands : Stands base history name attempts t ds) (hes : Refused base [] es) :
    Stands base history name attempts t (es ++ ds) := by
  rcases hstands with ⟨hlogin, hhistory, hrefused⟩ | ⟨hstage, hadmitted⟩
  · exact Or.inl ⟨hlogin, hhistory, hes.append hrefused⟩
  · exact Or.inr ⟨hstage, hes.admitted hadmitted⟩

section

variable {base : Host (Around ρ)} {Good : ρ → Prop}
  (hasks : base.config.username ≠ "" ∨ base.config.password ≠ "")

include hasks

theorem stands_decision {s : State} {username password : String} {accepted : Bool}
    (hanswers : base.Answers username password accepted) (hname : s.username = "") :
    Stands base s.history none [(username, password)] (s.decided base.config username accepted)
      (decision base s username password accepted) := by
  cases accepted with
  | true =>
      refine Or.inr ⟨rfl, [], [], username, password, [], _, rfl, rfl, ⟨rfl, by simp⟩, hanswers, ?_⟩
      cases base.hooks.watched <;> simp [Deed.IsAfter, State.decided, Stage.isLogin]
  | false =>
      have hstage := Config.isLogin_initialStage hasks
      refine Or.inl ⟨⟨rfl, hname⟩, rfl, ?_, ?_⟩
      · cases hwatched : base.hooks.watched <;> simp [decision, tries, hwatched]
      · cases hwatched : base.hooks.watched <;>
          simp [decision, hwatched, Deed.IsBefore, State.decided, hstage, hanswers]

/-- A line that completes an attempt, once no user name is kept. -/
theorem comes_attempt (haccepts : base.Accepts Good) {s : Sitting ρ} (hs : Good s.world)
    (hname : s.state.username = "") (username password : String) :
    ∃ t ds, Comes Good (login base.seated username password).run s (.ok ()) t ds ∧
      (t.typed = s.state.typed ∧ t.lineEnded = s.state.lineEnded) ∧
      Stands base s.state.history none [(username, password)] t ds := by
  obtain ⟨accepted, hanswers, hrun⟩ := comes_login hs haccepts username password
  refine ⟨_, _, hrun, ?_, stands_decision hasks hanswers hname⟩
  cases accepted <;> exact ⟨rfl, rfl⟩

/-- A password completes an attempt with the user name that was kept. -/
theorem comes_password (haccepts : base.Accepts Good) {s : Sitting ρ} (hs : Good s.world)
    (i : Inner (Course ρ)) (line : String) :
    ∃ t ds, Comes Good (heed base.seated i .password line).run s (.ok ()) t ds ∧
      (t.typed = s.state.typed ∧ t.lineEnded = s.state.lineEnded) ∧
      Stands base s.state.history none [(s.state.username, line)] t ds := by
  let cleared : Sitting ρ := { s with state := { s.state with username := "" } }
  obtain ⟨t, ds, ⟨w, hw, hrun⟩, hline, hstands⟩ :=
    comes_attempt hasks haccepts (s := cleared) hs rfl s.state.username line
  exact ⟨t, ds, ⟨w, hw, hrun⟩, hline, hstands⟩

omit hasks in
/-- A user name is kept if a password is to follow. -/
theorem comes_username (haccepts : base.Accepts Good) {s : Sitting ρ} (hs : Good s.world)
    (i : Inner (Course ρ)) (husername : base.config.username ≠ "")
    (hpassword : base.config.password ≠ "") (line : String) :
    ∃ t ds, Comes Good (heed base.seated i .username line).run s (.ok ()) t ds ∧
      (t.typed = s.state.typed ∧ t.lineEnded = s.state.lineEnded) ∧
      Stands base s.state.history (some line) [] t ds := by
  let t : State := { s.state with username := line, stage := .password }
  have hrun : Comes Good (heed base.seated i .username line).run s (.ok ()) t
      [.entered .password, .setEcho t.wantsLocalEcho] := by
    have hheed : heed base.seated i .username line = (do
        (base.seated.update ({ · with username := line }) : Course ρ Unit)
        (base.seated.setStage .password : Course ρ Unit)
        adjustEcho base.seated) := if_neg hpassword
    rw [hheed]
    refine Comes.seq (comes_update hs _).lift fun w hw => ?_
    refine Comes.seq (comes_setStage hw _).lift fun w hw => ?_
    exact comes_adjustEcho hw haccepts
  refine ⟨t, _, hrun, ⟨rfl, rfl⟩, Or.inl ⟨⟨rfl, rfl, husername, hpassword⟩, rfl, ?_⟩⟩
  exact .of_not_tried (by simp [Deed.IsBefore, Stage.isLogin]) rfl

/-- A line before a login, once its end is shown and before the next one is asked for. -/
theorem comes_heed (haccepts : base.Accepts Good) {s : Sitting ρ} (hs : Good s.world)
    (i : Inner (Course ρ)) {name : Option String} (hlogin : s.state.AtLogin base.config name)
    (line : String) :
    ∃ t ds, Comes Good (heed base.seated i s.state.stage line).run s (.ok ()) t ds ∧
      (t.typed = s.state.typed ∧ t.lineEnded = s.state.lineEnded) ∧
      Stands base s.state.history (base.config.hear name line).2
        (base.config.hear name line).1.toList t ds := by
  cases name with
  | some username =>
      obtain ⟨hstage, rfl, -⟩ := hlogin
      rw [hstage]
      exact comes_password hasks haccepts hs i line
  | none =>
      obtain ⟨hstage, hname⟩ := hlogin
      by_cases husername : base.config.username = ""
      · have hpassword : base.config.password ≠ "" := hasks.resolve_left (not_not_intro husername)
        have hhear : base.config.hear none line = (some (s.state.username, line), none) := by
          simp [Config.hear, husername, hname]
        have hinitial : base.config.initialStage = .password := by
          simp [Config.initialStage, husername, hpassword]
        rw [hstage, hinitial, hhear]
        exact comes_password hasks haccepts hs i line
      · have hinitial : base.config.initialStage = .username := by
          simp [Config.initialStage, husername]
        rw [hstage, hinitial]
        by_cases hpassword : base.config.password = ""
        · have hhear : base.config.hear none line = (some (line, ""), none) := by
            simp [Config.hear, husername, hpassword]
          have hheed : heed base.seated i .username line = login base.seated line "" :=
            if_pos hpassword
          rw [hheed, hhear]
          exact comes_attempt hasks haccepts hs hname line ""
        · have hhear : base.config.hear none line = (none, some line) := by
            simp [Config.hear, husername, hpassword]
          rw [hhear]
          exact comes_username haccepts hs i husername hpassword line

theorem Stands.turn {history : Log String} {t : State} {name : Option String}
    {attempts : List (String × String)} {ds : List Deed}
    (hstands : Stands base history name attempts t ds) :
    Stands base history name attempts t (ds ++ [.looked true,
      .wrote (base.config.encoded (promptOf base.config t.stage))]) := by
  rw [← List.append_nil attempts]
  rcases hstands with ⟨hlogin, hhistory, hrefused⟩ | ⟨hstage, hadmitted⟩
  · refine Or.inl ⟨hlogin, hhistory, hrefused.append (.of_not_tried ?_ rfl)⟩
    have hstage := hlogin.isLogin hasks
    simp only [List.mem_cons, List.not_mem_nil, or_false, forall_eq_or_imp, forall_eq]
    exact ⟨trivial, Or.inr (Or.inl ⟨t.stage, hstage, rfl⟩)⟩
  · exact Or.inr ⟨hstage, hadmitted.append (by simp [Deed.IsAfter]) []⟩

omit hasks in
theorem comes_newline (haccepts : base.Accepts Good) {s : Sitting ρ} (hs : Good s.world)
    (i : Inner (Course ρ)) (line : String) :
    ∃ w es, Good w ∧ Refused base [] es ∧
      (takeLine base.seated i line).run s =
        let rest := (heed base.seated i s.state.stage line >>= fun _ =>
          endTurn base.seated).run ⟨s.state, w⟩
        { rest with deeds := es ++ rest.deeds } := by
  have hlook := takeLine_run base i line s
  rw [answer] at hlook
  by_cases hshown : s.state.stage = .password ∨ s.state.requireEcho = true
  · obtain ⟨w, hw, hrun⟩ := comes_sendText hs haccepts "\n"
    have hes : Refused base [] [.wrote (base.config.encoded "\n")] :=
      .of_not_tried (by simp [Deed.IsBefore]) rfl
    refine ⟨w, _, hw, hes, ?_⟩
    rw [hlook, if_pos hshown, ExceptT.run_bind, Recorded.bind_run, hrun]
  · refine ⟨s.world, [], hs, .of_not_tried (by simp) rfl, ?_⟩
    rw [hlook, if_neg hshown]
    rfl

/-- A line before a login, from its end to the next prompt. -/
theorem comes_takeLine (haccepts : base.Accepts Good) {s : Sitting ρ} (hs : Good s.world)
    (i : Inner (Course ρ)) {name : Option String} (hlogin : s.state.AtLogin base.config name)
    (line : String) :
    ∃ t ds, Comes Good (takeLine base.seated i line).run s (.ok ()) t ds ∧
      (t.typed = s.state.typed ∧ t.lineEnded = s.state.lineEnded) ∧
      Stands base s.state.history (base.config.hear name line).2
        (base.config.hear name line).1.toList t ds := by
  obtain ⟨w, es, hw, hes, htake⟩ := comes_newline haccepts hs i line
  obtain ⟨t, ds, hrun, hline, hstands⟩ :=
    comes_heed hasks haccepts (s := ⟨s.state, w⟩) hw i hlogin line
  obtain ⟨w', hw', hturn⟩ : Comes Good (heed base.seated i s.state.stage line >>= fun _ =>
      endTurn base.seated).run ⟨s.state, w⟩ (.ok ()) t (ds ++ [.looked true,
        .wrote (base.config.encoded (promptOf base.config t.stage))]) :=
    hrun.seq fun _ hw => comes_endTurn hw haccepts
  refine ⟨t, _, ⟨w', hw', ?_⟩, hline, (hstands.turn hasks).after hes⟩
  rw [htake, hturn]

/-- Any byte before a login. -/
theorem comes_pressKey (haccepts : base.Accepts Good) {s : Sitting ρ} (hs : Good s.world)
    (i : Inner (Course ρ)) {name : Option String} (hlogin : s.state.AtLogin base.config name)
    (b : UInt8) :
    let next := s.state.key base.config b
    ∃ t ds, Comes Good (pressKey base.seated i b).run s (.ok ()) t ds ∧
      (t.typed = next.1.typed ∧ t.lineEnded = next.1.lineEnded) ∧
      Stands base s.state.history (base.config.nameAfter name next.2.toList)
        (base.config.attemptsFrom name next.2.toList) t ds := by
  intro next
  obtain ⟨hkept, hhistory⟩ := hlogin.key b
  have hrun := pressKey_run base i b s
  rw [← hhistory]
  rcases hline : (s.state.key base.config b).2 with _ | line
  · by_cases hshown : isLineEnd b = false ∧ s.state.shown base.config b ≠ .none
    · obtain ⟨w, hw, hsend⟩ := comes_sendBytes (s := ⟨next.1, s.world⟩) hs haccepts
        (s.state.shown base.config b).bytes
      refine ⟨next.1, [.wrote (s.state.shown base.config b).bytes], ⟨w, hw, ?_⟩, ⟨rfl, rfl⟩,
        Or.inl ⟨hkept, rfl, ?_⟩⟩
      · rw [hrun, hline]
        exact (if_pos hshown).trans hsend
      · exact .of_not_tried (by simp [Deed.IsBefore]) rfl
    · refine ⟨next.1, [], ⟨s.world, hs, ?_⟩, ⟨rfl, rfl⟩,
        Or.inl ⟨hkept, rfl, .of_not_tried (by simp) rfl⟩⟩
      rw [hrun, hline]
      exact if_neg hshown
  · obtain ⟨t, ds, ⟨w, hw, htake⟩, hsame, hstands⟩ :=
      comes_takeLine hasks haccepts (s := ⟨next.1, s.world⟩) hs i hkept line
    refine ⟨t, ds, ⟨w, hw, ?_⟩, hsame, ?_⟩
    · rw [hrun, hline]
      exact htake
    · simpa only [Option.toList_some, Config.nameAfter, Config.attemptsFrom,
        List.append_nil] using hstands

end

/-! Once someone has logged in. -/

/-- Work that leaves a logged-in session logged in. -/
def StaysIn (α : Type) (x : Course ρ α) : Prop :=
  ∀ s : Sitting ρ, s.state.stage.isLogin = false →
    (x s).state.state.stage.isLogin = false ∧
      (s.state.stage = .commandEntry → (x s).state.state.stage = .commandEntry) ∧
      ∀ d ∈ (x s).deeds, d.IsAfter

theorem staysIn_of_quiet {α : Type} {x : Course ρ α}
    (hstage : ∀ s, (x s).state.state.stage = s.state.stage)
    (hdeeds : ∀ s, ∀ d ∈ (x s).deeds, d.IsAfter) : StaysIn α x :=
  fun s hs => ⟨(hstage s).symm ▸ hs, fun h => (hstage s).trans h, hdeeds s⟩

theorem staysIn_around {α : Type} (work : Around ρ α) : StaysIn α (around work) :=
  staysIn_of_quiet (fun _ => rfl) fun _ _ hd => by cases hd

theorem staysIn_joins : Joins (StaysIn (ρ := ρ)) where
  pure a := staysIn_of_quiet (fun _ => rfl) fun _ _ hd => by cases hd
  bind hx hf s hs := by
    obtain ⟨hstage, hentry, hdeeds⟩ := hx s hs
    obtain ⟨hstage', hentry', hdeeds'⟩ := hf _ _ hstage
    exact ⟨hstage', fun h => hentry' (hentry h), List.forall_mem_append.mpr ⟨hdeeds, hdeeds'⟩⟩

theorem staysIn_enter {d : Deed} (hd : d.IsAfter) : StaysIn (ρ := ρ) Unit (Recorded.enter d) :=
  staysIn_of_quiet (fun _ => rfl) fun _ => List.forall_mem_singleton.mpr hd

theorem keeps_staysIn (base : Host (Around ρ)) :
    base.seated.Keeps State.LoggedIn StaysIn := by
  refine staysIn_joins.keeps_seated base staysIn_around (fun d hd => staysIn_enter ?_) ?_ ?_
  · cases d with
    | read stage result => cases hd
    | entered stage => cases hd
    | tried username password accepted => cases hd
    | _ => trivial
  · exact fun hf s hs => hf s.state hs s hs
  · exact fun f hf => staysIn_of_quiet (fun s => hf s.state) fun _ _ hd => by cases hd

/-- A command ends in command entry. -/
theorem staysIn_runCommand (base : Host (Around ρ)) {i : Inner (Course ρ)}
    (hi : i.Keeps StaysIn) (found : Match Handler) (a : Arguments) :
    StaysIn _ (runCommand base.seated i found a).run := by
  have hok := keeps_staysIn base
  intro s hs
  rw [runCommand_run]
  refine ⟨rfl, fun _ => rfl, ?_⟩
  have hattend := (hok.attend hi found a ⟨{ s.state with stage := .processing },
    (around (base.count .dispatched) s).state.world⟩ rfl).2.2
  change ∀ d ∈ [.counted .dispatched, .entered .processing] ++
    ((attend base.seated i found a _).deeds ++ [.entered .commandEntry]), Deed.IsAfter d
  simp only [List.forall_mem_append]
  exact ⟨by simp [Deed.IsAfter, Stage.isLogin], hattend, by simp [Deed.IsAfter, Stage.isLogin]⟩

theorem staysIn_press (base : Host (Around ρ)) (b : UInt8) :
    StaysIn _ (press base.seated b).run := by
  have hok := keeps_staysIn base
  have htake (i : Inner (Course ρ)) := hok.takeLine_of_loggedIn (i := i) fun _ hs => hs
  have hinner := hok.inner (fun _ hi => staysIn_runCommand base hi) htake base.bounds.nesting
  exact hok.pressKey b (htake _ (staysIn_runCommand base hinner))

theorem staysIn_typeAll (base : Host (Around ρ)) (bytes : List UInt8) :
    StaysIn _ (typeAll base.seated bytes) := by
  induction bytes with
  | nil => exact staysIn_joins.pure _
  | cons b rest ih => exact staysIn_joins.bind (staysIn_press base b) fun _ => ih

/-! Whole runs. -/

/-- Bytes typed before a login. -/
theorem stands_typeAll {base : Host (Around ρ)} {Good : ρ → Prop}
    (hasks : base.config.username ≠ "" ∨ base.config.password ≠ "")
    (haccepts : base.Accepts Good) (bytes : List UInt8) {s : Sitting ρ} (hs : Good s.world)
    {name : Option String} (hlogin : s.state.AtLogin base.config name) :
    let lines := s.state.typedLines base.config bytes
    let run := typeAll base.seated bytes s
    Stands base s.state.history (base.config.nameAfter name lines)
      (base.config.attemptsFrom name lines) run.state.state run.deeds := by
  induction bytes generalizing s name with
  | nil => exact Or.inl ⟨hlogin, rfl, .of_not_tried (fun d hd => by cases hd) rfl⟩
  | cons b rest ih =>
      obtain ⟨t, ds, ⟨w, hw, hpress⟩, ⟨htyped, hended⟩, hstands⟩ :=
        comes_pressKey hasks haccepts hs base.seated.itself hlogin b
      have hrun : typeAll base.seated (b :: rest) s =
          { typeAll base.seated rest ⟨t, w⟩ with
            deeds := ds ++ (typeAll base.seated rest ⟨t, w⟩).deeds } := by
        have hpress : (press base.seated b).run s = ⟨.ok (), ⟨t, w⟩, ds⟩ := hpress
        rw [typeAll, Recorded.bind_run, hpress]
      intro lines run
      have hlines : lines = (s.state.key base.config b).2.toList ++
          t.typedLines base.config rest := by
        rw [State.typedLines_congr htyped hended]
        rfl
      have hrun : run = { typeAll base.seated rest ⟨t, w⟩ with
          deeds := ds ++ (typeAll base.seated rest ⟨t, w⟩).deeds } := hrun
      rw [hlines, hrun, Config.attemptsFrom_append, Config.nameAfter_append]
      rcases hstands with ⟨hlogin, hhistory, hrefused⟩ | ⟨hstage, hadmitted⟩
      · rcases ih (s := ⟨t, w⟩) hw hlogin with
          ⟨hlogin', hhistory', hrefused'⟩ | ⟨hstage', hadmitted⟩
        · exact Or.inl ⟨hlogin', hhistory'.trans hhistory, hrefused.append hrefused'⟩
        · exact Or.inr ⟨hstage', hrefused.admitted hadmitted⟩
      · obtain ⟨-, hentry, hafter⟩ := staysIn_typeAll base rest ⟨t, w⟩ (by rw [hstage]; rfl)
        exact Or.inr ⟨hentry hstage, hadmitted.append hafter _⟩

/-! From the beginning. -/

theorem mem_tries {username password : String} {accepted : Bool} {ds : List Deed} :
    (username, password, accepted) ∈ tries ds ↔ .tried username password accepted ∈ ds := by
  simp only [tries, List.mem_filterMap]
  constructor
  · rintro ⟨d, hd, hmatch⟩
    cases d <;> simp at hmatch
    obtain ⟨rfl, rfl, rfl⟩ := hmatch
    exact hd
  · exact fun hd => ⟨_, hd, rfl⟩

/-- Nothing is done for anyone before an attempt to log in is accepted, and the first one that
is lets its user in for good.  The usual attempt is the configured one. -/
theorem commands_follow_login (base : Host (Around ρ)) {Good : ρ → Prop}
    (haccepts : base.Accepts Good)
    (hasks : base.config.username ≠ "" ∨ base.config.password ≠ "") {w : ρ} (hw : Good w)
    (bytes : List UInt8) :
    let c := base.config
    let lines := (State.initial c).typedLines c bytes
    let run := typeAll base.seated bytes ⟨.initial c, w⟩
    let after := run.state.state
    (Refused base (c.attempts lines) run.deeds ∧ after.stage = c.stageAfter lines.length ∧
          after.history = .empty ∨
        Admitted base (c.attempts lines) run.deeds ∧ after.stage = .commandEntry) ∧
      ((∀ username password s w, (((base.validate username password).run s).run w).1 =
          ({} : Hooks).validates c username password) →
        (after.stage = .commandEntry ↔ (c.username, c.password) ∈ c.attempts lines)) := by
  intro c lines run after
  have hstart : (State.initial c).AtLogin c none := ⟨rfl, rfl⟩
  have hstands := stands_typeAll hasks haccepts bytes (s := ⟨.initial c, w⟩) hw hstart
  dsimp only at hstands
  rw [Config.attemptsFrom_none] at hstands
  have hvalidates : ∀ username password,
      ({} : Hooks).validates c username password = true ↔
        username = c.username ∧ password = c.password := by
    simp [Hooks.validates]
  rcases hstands with ⟨hlogin, hhistory, hrefused⟩ | ⟨hstage, hadmitted⟩
  · refine ⟨Or.inl ⟨hrefused, hlogin.stage_eq, hhistory⟩, fun husual => ⟨fun hentry => ?_,
      fun hmem => ?_⟩⟩
    · have hasking := hlogin.isLogin hasks
      rw [hentry] at hasking
      exact absurd hasking (by decide)
    · have htried : (c.username, c.password, false) ∈ tries run.deeds := by
        rw [hrefused.tries]
        exact List.mem_map.mpr ⟨_, hmem, rfl⟩
      obtain ⟨-, s, w, hanswer⟩ := hrefused.before _ (mem_tries.mp htried)
      rw [husual, (hvalidates _ _).mpr ⟨rfl, rfl⟩] at hanswer
      cases hanswer
  · refine ⟨Or.inr ⟨hadmitted, hstage⟩, fun husual => ⟨fun _ => ?_, fun _ => hstage⟩⟩
    obtain ⟨first, rest, username, password, before, after, hattempts, -, -, ⟨s, w, hanswer⟩, -⟩ :=
      hadmitted
    rw [husual, hvalidates] at hanswer
    obtain ⟨rfl, rfl⟩ := hanswer
    rw [hattempts]
    exact List.mem_append_right _ List.mem_cons_self

/-! A session alone at a desk. -/

namespace Desk

/-- What surrounds the session of a desk.  It learns nothing from the memory. -/
def around (d : Desk) : Host (Around Desk) :=
  d.host.map fun work _ => work

/-- The transport of a desk is open, and no write is to fail. -/
def Ready (d : Desk) : Prop :=
  d.transport.isOpen = true ∧ d.transport.failures = 0

theorem accepts_around {d : Desk} (hplain : d.link = none) : d.around.Accepts Ready := by
  have hchannel : d.around.channel = wire.map fun work _ => work := by
    simp [around, Host.map, host, channel, hplain]
  refine ⟨fun bytes s w hw => ?_, fun enabled s w hw => ?_, fun s w hw => ?_, fun _ _ _ _ hw => hw,
    fun _ _ _ hw => hw, fun _ _ _ hw => hw⟩
  · have hwrite : w.transport.write bytes = (.ok (), w.transport.record (.wrote bytes)) := by
      simp [Channel.Scripted.write, hw.1, hw.2]
    rw [hchannel]
    change (w.transport.write bytes).1 = _ ∧
      Ready { w with transport := (w.transport.write bytes).2 }
    rw [hwrite]
    exact ⟨rfl, hw⟩
  · rw [hchannel]
    exact ⟨rfl, hw⟩
  · rw [hchannel]
    exact ⟨hw.1, hw⟩

end Desk

/-- A desk where a user name and a password are asked for. -/
def guarded : Desk :=
  .initial ⟨1⟩ { username := "ann", password := "pw" } {} none {}

/-- A wrong password, and then the right one. -/
def secondTry : List UInt8 :=
  Text.encode "ann\rno\rann\rpw\r"

theorem commands_follow_login_second :
    (State.initial guarded.around.config).typedLines guarded.around.config secondTry =
        ["ann", "no", "ann", "pw"] ∧
      (typeAll guarded.around.seated secondTry
        ⟨.initial guarded.around.config, guarded⟩).state.state.stage = .commandEntry := by
  have hasks : guarded.around.config.username ≠ "" ∨ guarded.around.config.password ≠ "" :=
    Or.inl (by decide)
  have hready : guarded.Ready := ⟨rfl, rfl⟩
  have husual : ∀ username password s w,
      (((guarded.around.validate username password).run s).run w).1 =
        ({} : Hooks).validates guarded.around.config username password := fun _ _ _ _ => rfl
  have hattempt : (guarded.around.config.username, guarded.around.config.password) ∈
      guarded.around.config.attempts
        ((State.initial guarded.around.config).typedLines guarded.around.config secondTry) := by
    decide +kernel
  refine ⟨by decide +kernel, ?_⟩
  have hlogin := (commands_follow_login guarded.around (Desk.accepts_around rfl) hasks hready
    secondTry).2 husual
  exact hlogin.mpr hattempt

end RemoteConsole.Session
