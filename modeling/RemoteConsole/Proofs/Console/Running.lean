/-
Running commands.  A session shows by its stage that it carries out a command, and a
session that does so is not collected.  While a command is carried out it may have its own
session carry out others.  As soon as one of these has ended nothing shows the command
around it any more.
-/
import RemoteConsole.Proofs.Console.Seats
import RemoteConsole.Session.Script

namespace RemoteConsole.Console

open Session (Id Host Stage)
open Routine (Along Follows)

/-- A console, and the stages that one of its sessions was put into, latest first. -/
structure Marked where
  console : Console
  marks : List Stage := []

/-- How many commands have begun and not ended.  One begins when its session is put into the
stage of a running command, and ends with command entry. -/
def inProgress : List Stage → Nat
  | [] => 0
  | .processing :: earlier => inProgress earlier + 1
  | .commandEntry :: earlier => inProgress earlier - 1
  | .username :: earlier => inProgress earlier
  | .password :: earlier => inProgress earlier

theorem mem_of_inProgress {marks : List Stage} (h : 0 < inProgress marks) :
    .processing ∈ marks := by
  induction marks with
  | nil => cases h
  | cons stage earlier ih =>
      cases stage with
      | processing => exact List.mem_cons_self
      | commandEntry => exact List.mem_cons_of_mem _ (ih (Nat.lt_of_lt_of_le h (Nat.sub_le _ _)))
      | username => exact List.mem_cons_of_mem _ (ih h)
      | password => exact List.mem_cons_of_mem _ (ih h)

theorem inProgress_eq_zero {marks : List Stage} (h : .processing ∉ marks) :
    inProgress marks = 0 :=
  Nat.eq_zero_of_not_pos fun hpos => h (mem_of_inProgress hpos)

/-- Work at the console that puts the session into no stage. -/
def unmarked {α : Type} (work : Work α) : Routine Job Marked α :=
  work.within Marked.console fun console m => { m with console }

/-- The surroundings of a session at work, where its stages are marked. -/
def marked (c : Console) (i : Id) : Host (Routine Job Marked) :=
  { (c.host i).map unmarked with
    setStage := fun stage =>
      ((c.host i).setStage stage).within Marked.console fun console m =>
        { console, marks := stage :: m.marks } }

/-- What others may do while a session waits: anything but to change its stage.  Jobs of other
sessions do no more (`follows_job`). -/
def Others (i : Id) (m m' : Marked) : Prop :=
  Leaves i m.console m'.console ∧ m'.marks = m.marks

/-- The marks tell how a session stands. -/
structure Marked.Sound (i : Id) (m : Marked) : Prop where
  knows : m.console.knows i = true
  last : ∀ stage ∈ m.marks.head?, (m.console.sessionState i).stage = stage
  idle : m.marks = [] → (m.console.sessionState i).stage ≠ .processing
  loggedIn : .processing ∈ m.marks → (m.console.sessionState i).LoggedIn

/-- A session is put into a stage, and this is marked. -/
def Marked.enter (i : Id) (stage : Stage) (m : Marked) : Marked :=
  { console := m.console.setSessionState i { m.console.sessionState i with stage }
    marks := stage :: m.marks }

variable {i : Id} {m m' : Marked}

theorem Marked.Sound.others (hm : m.Sound i) (h : Others i m m') : m'.Sound i := by
  obtain ⟨hleaves, hmarks⟩ := h
  obtain ⟨hknows, hstage⟩ := hleaves hm.knows
  refine ⟨hknows, ?_, ?_, ?_⟩
  · rw [hmarks, hstage]
    exact hm.last
  · rw [hmarks, hstage]
    exact hm.idle
  · rw [hmarks, Session.State.LoggedIn, hstage]
    exact hm.loggedIn

theorem Marked.Sound.enter (hm : m.Sound i) {stage : Stage}
    (hstage : stage.isLogin = true → .processing ∉ m.marks) : (m.enter i stage).Sound i := by
  have hstate : (m.enter i stage).console.sessionState i =
      { m.console.sessionState i with stage } :=
    (sessionState_setSessionState hm.knows i _).trans (if_pos rfl)
  refine ⟨knows_setSessionState hm.knows i _, ?_, ?_, ?_⟩
  · rintro _ ⟨⟩
    rw [hstate]
  · rintro ⟨⟩
  · intro hmem
    rw [hstate, Session.State.LoggedIn]
    rcases List.mem_cons.mp hmem with rfl | hmem
    · rfl
    · exact Bool.eq_false_iff.mpr fun hlogin => hstage hlogin hmem

/-- Work that ends with as many commands in progress as there were, and never falls below. -/
structure Steady (i : Id) (From : List Stage → Prop) (α : Type) (work : Routine Job Marked α) :
    Prop where
  along : ∀ m : Marked, m.Sound i → From m.marks →
    Along (Others i) (fun _ m' => m'.Sound i ∧ inProgress m.marks ≤ inProgress m'.marks)
      (fun _ m' => m'.Sound i ∧ From m'.marks ∧ inProgress m'.marks = inProgress m.marks) work m

section

variable {From : List Stage → Prop}

theorem steady_unmarked {α : Type} {work : Work α} (h : Follows (Leaves i) α work) :
    Steady i From α (unmarked work) := by
  refine ⟨fun m hm hfrom => ?_⟩
  have hothers : Along (Others i) (Others i) (fun _ _ => True) (unmarked work) m :=
    Along.within (fun _ _ => rfl) (fun _ _ h => ⟨h.1, fun _ => h⟩) (fun _ _ h => ⟨h, rfl⟩)
      (h m.console)
  have hkept := hothers.keeps (I := fun m' => m'.Sound i ∧ m'.marks = m.marks)
    (fun _ _ hs h => ⟨hs.1.others h, h.2.trans hs.2⟩) ⟨hm, rfl⟩
  refine hkept.mono (fun _ m' ⟨hm', hmarks⟩ => ⟨hm', ?_⟩) fun _ m' ⟨_, hm', hmarks⟩ => ?_
  · exact Nat.le_of_eq (congrArg inProgress hmarks.symm)
  · exact ⟨hm', by rwa [hmarks], congrArg inProgress hmarks⟩

theorem steady_joins : Session.Joins (Steady i From) where
  pure _ := ⟨fun _ hm hfrom => ⟨hm, hfrom, rfl⟩⟩
  bind hx hf := by
    refine ⟨fun m hm hfrom => (hx.along m hm hfrom).bind fun a m' ⟨hm', hfrom', hsame⟩ => ?_⟩
    have hrest := (hf a).along m' hm' hfrom'
    rw [hsame] at hrest
    exact hrest

/-- The memory of a session that comes from such a place. -/
def Seen (i : Id) (From : List Stage → Prop) (s : Session.State) : Prop :=
  ∃ m : Marked, m.Sound i ∧ From m.marks ∧ m.console.sessionState i = s

variable (i From) in
theorem keeps_steady (c : Console) : (c.marked i).Keeps (Seen i From) (Steady i From) :=
  have hok := keeps_follows c (i := i) (Or.inl rfl)
  { toJoins := steady_joins
    write := fun bytes => steady_unmarked (hok.write bytes)
    close := steady_unmarked hok.close
    setLocalEcho := fun enabled => steady_unmarked (hok.setLocalEcho enabled)
    isOpen := steady_unmarked hok.isOpen
    state := fun hf =>
      ⟨fun m hm hfrom => (hf _ ⟨m, hm, hfrom, rfl⟩).along m hm hfrom⟩
    change := fun f hf => steady_unmarked (hok.change f hf)
    registry := steady_unmarked hok.registry
    setRegistry := fun registry => steady_unmarked (hok.setRegistry registry)
    note := fun n => steady_unmarked (hok.note n)
    count := fun metric => steady_unmarked (hok.count metric)
    awaitEnd := steady_unmarked hok.awaitEnd
    sleep := fun time => steady_unmarked (hok.sleep time)
    broadcast := fun text => steady_unmarked (hok.broadcast text)
    collect := steady_unmarked hok.collect
    removeSession := fun j => steady_unmarked (hok.removeSession j) }

end

/-! Commands. -/

theorem along_setStage (c : Console) {stage : Stage} {R G : Marked → Marked → Prop} {α : Type}
    {Q : α → Marked → Prop} {next : Unit → Routine Job Marked α}
    (hchange : G m (m.enter i stage)) (hnext : Along R G Q (next ()) (m.enter i stage)) :
    Along R G Q ((c.marked i).setStage stage >>= next) m :=
  ⟨hchange, hnext⟩

/-- While some command is in progress. -/
def Amid (marks : List Stage) : Prop :=
  0 < inProgress marks

theorem loggedIn_of_seen {s : Session.State} (h : Seen i Amid s) : s.LoggedIn := by
  obtain ⟨m, hm, hamid, rfl⟩ := h
  exact hm.loggedIn (mem_of_inProgress hamid)

/-- All that a handler does is done while it is in progress, and what it has its session carry
out ends before it does. -/
theorem steady_attend (c : Console) {inner : Session.Inner (Routine Job Marked)}
    (hinner : inner.Keeps (Steady i Amid)) (found : Session.Match Session.Handler)
    (a : Session.Arguments) : Steady i Amid _ (Session.attend (c.marked i) inner found a) :=
  (keeps_steady i Amid c).attend hinner found a

/-- A command is in progress from its beginning to its end. -/
theorem steady_runCommand (c : Console) {From : List Stage → Prop}
    (hfrom : ∀ a b, inProgress a = inProgress b → From a → From b)
    {inner : Session.Inner (Routine Job Marked)} (hinner : inner.Keeps (Steady i Amid))
    (found : Session.Match Session.Handler) (a : Session.Arguments) :
    Steady i From _ (Session.runCommand (c.marked i) inner found a).run := by
  refine ⟨fun m hm hm_from => ?_⟩
  rw [Session.runCommand_run]
  refine (((keeps_steady i From c).count _).along m hm hm_from).bind
    fun _ m₁ ⟨hm₁, _, hdepth₁⟩ => ?_
  -- One more command is in progress from here,
  have hm₂ : (m₁.enter i .processing).Sound i := hm₁.enter fun h => by cases h
  have hamid : Amid (m₁.enter i .processing).marks := Nat.succ_pos _
  have hdepth₂ : inProgress (m₁.enter i .processing).marks = inProgress m.marks + 1 :=
    congrArg (· + 1) hdepth₁
  refine along_setStage c ⟨hm₂, by omega⟩ ?_
  have hattend := (steady_attend c hinner found a).along _ hm₂ hamid
  rw [hdepth₂] at hattend
  refine (hattend.mono (fun _ m' h => ⟨h.1, by omega⟩) fun _ _ h => h).bind
    fun sent m₃ ⟨hm₃, _, hdepth₃⟩ => ?_
  -- to here.
  have hm₄ : (m₃.enter i .commandEntry).Sound i := hm₃.enter fun h => by cases h
  have hdepth₄ : inProgress (m₃.enter i .commandEntry).marks = inProgress m.marks := by
    change inProgress m₃.marks - 1 = _
    omega
  exact along_setStage c ⟨hm₄, Nat.le_of_eq hdepth₄.symm⟩
    ⟨hm₄, hfrom _ _ hdepth₄.symm hm_from, hdepth₄⟩

/-- Whatever commands have their own session do is done while they are in progress. -/
theorem keeps_inner (c : Console) (depth : Nat) :
    (Session.inner (c.marked i) depth).Keeps (Steady i Amid) := by
  have hok := keeps_steady i Amid c
  refine hok.inner (fun _ hi => ?_) (fun _ => ?_) depth
  · exact steady_runCommand c (fun _ _ hsame hamid => Nat.lt_of_lt_of_eq hamid hsame) hi
  · exact hok.takeLine_of_loggedIn fun _ => loggedIn_of_seen

/-! What is asked of a session from outside. -/

/-- While no command is in progress. -/
def Between (marks : List Stage) : Prop :=
  inProgress marks = 0

/-- Before any command. -/
def Before (marks : List Stage) : Prop :=
  .processing ∉ marks

variable (i) in
theorem admits_steady (c : Console) : (c.marked i).Admits (Steady i Before) where
  validate username password := by
    have hvalidate : Follows (Leaves i) _ ((c.host i).validate username password) := .pure _
    exact steady_unmarked hvalidate
  setStage stage hstage := by
    refine ⟨fun m hm hbefore => ?_⟩
    have hm' : (m.enter i stage).Sound i := hm.enter fun _ => hbefore
    have hbefore' : Before (m.enter i stage).marks :=
      List.not_mem_cons_of_ne_of_not_mem hstage.symm hbefore
    have hsame : inProgress (m.enter i stage).marks = inProgress m.marks :=
      (inProgress_eq_zero hbefore').trans (inProgress_eq_zero hbefore).symm
    exact ⟨⟨hm', Nat.le_of_eq hsame.symm⟩, hm', hbefore', hsame⟩

theorem steady_submit (c : Console) (line : String) :
    Steady i Between _ (Session.submit (c.marked i) line).run := by
  refine (keeps_steady i Between c).submitLine ?_ line
  exact steady_runCommand c (fun _ _ hsame hbetween => hsame.symm.trans hbetween)
    (keeps_inner c _)

/-- A line is part of a login, which is before any command, or is submitted. -/
theorem steady_takeLine (c : Console) (line : String) :
    Steady i Between _ (Session.takeLine (c.marked i) (c.marked i).itself line).run := by
  refine ⟨fun m hm hbetween => ?_⟩
  rw [Session.takeLine_eq]
  change Along _ _ _ (Session.answer _ _ (m.console.sessionState i) line).run m
  cases hstage : (m.console.sessionState i).stage.isLogin with
  | true =>
      have hbefore : Before m.marks := fun hmem => by
        have hloggedIn := hm.loggedIn hmem
        rw [Session.State.LoggedIn, hstage] at hloggedIn
        cases hloggedIn
      have hheed :=
        (keeps_steady i Before c).heed (admits_steady i c) (c.marked i).itself hstage line
      exact (((keeps_steady i Before c).answer hheed).along m hm hbefore).mono (fun _ _ h => h)
        fun _ _ h => ⟨h.1, inProgress_eq_zero h.2.1, h.2.2⟩
  | false =>
      have hheed : Steady i Between _ (Session.heed (c.marked i) (c.marked i).itself
          (m.console.sessionState i).stage line).run := by
        rw [Session.heed_of_not_login _ _ hstage]
        exact steady_submit c line
      exact ((keeps_steady i Between c).answer hheed).along m hm hbetween

theorem steady_press (c : Console) (b : UInt8) :
    Steady i Between _ (Session.press (c.marked i) b).run :=
  (keeps_steady i Between c).pressKey b (steady_takeLine c)

theorem steady_claim (c : Console) : Steady i Between _ (Session.claim (c.marked i)).run := by
  have hok := keeps_steady i Between c
  refine hok.seq (hok.lift hok.isOpen) fun opened => ?_
  split
  · exact hok.pure _
  · refine hok.look fun s _ => ?_
    split
    · exact hok.pure _
    · exact hok.lift (hok.update fun _ => rfl)

theorem steady_live (c : Console) (limit : Nat) :
    Steady i Between _ (Session.live (c.marked i) limit) :=
  (keeps_steady i Between c).live (fun count => steady_unmarked (follows_read c i count))
    (steady_press c) limit

/-- What can be asked of a session. -/
inductive Task where
  | submit (line : String)
  | press (b : UInt8)
  /-- Take one byte from the channel. -/
  | serve
  /-- Run the session, for so many bytes at most. -/
  | run (limit : Nat)

/-- Do what is asked of a session, whether or not it fails. -/
def Task.perform {m : Type → Type} [Monad m] (h : Host m) : Task → m Unit
  | submit line => do let _ ← (Session.submit h line).run
  | press b => do let _ ← (Session.press h b).run
  | serve => do let _ ← (Session.serveByte h).run
  | run limit => do let _ ← (Session.run h limit).run

theorem steady_perform (c : Console) (task : Task) :
    Steady i Between _ (task.perform (c.marked i)) := by
  have hok := keeps_steady i Between c
  cases task with
  | submit line => exact hok.bind (steady_submit c line) fun _ => hok.pure _
  | press b => exact hok.bind (steady_press c b) fun _ => hok.pure _
  | serve =>
      refine hok.bind (hok.seq (hok.lift ?_) fun result => ?_) fun _ => hok.pure _
      · exact steady_unmarked (follows_read c i 1)
      · cases result with
        | error e => exact hok.pure _
        | ok bytes => exact steady_press c _
  | run limit =>
      refine hok.bind (hok.seq (steady_claim c) fun _ => ?_) fun _ => hok.pure _
      exact hok.lift (steady_live c limit)

theorem steady_tasks (c : Console) (tasks : List Task) :
    Steady i Between _ (tasks.forM (Task.perform (c.marked i))) := by
  have hok := keeps_steady i Between c
  induction tasks with
  | nil => exact hok.pure _
  | cons task rest ih => exact hok.bind (steady_perform c task) fun _ => ih

/-! What a session shows of its commands. -/

/-- A session tells rightly of its commands, but for those around one that has just ended. -/
structure Marked.Tells (i : Id) (m : Marked) : Prop where
  /-- While a command is carried out the session is seen to do so, as long as the command that
  began or ended last is one that began. -/
  running : 0 < inProgress m.marks →
    (m.console.isProcessing i = true ↔ m.marks.head? = some .processing)
  /-- Else one has ended within it, and command entry is seen. -/
  nested : 0 < inProgress m.marks → m.marks.head? ≠ some .processing →
    m.marks.head? = some .commandEntry ∧ (m.console.sessionState i).stage = .commandEntry
  /-- Once the outermost command has ended the session is back in command entry. -/
  ended : inProgress m.marks = 0 → m.console.isProcessing i = false ∧
    (.processing ∈ m.marks → (m.console.sessionState i).stage = .commandEntry)
  /-- A session that is seen to carry out a command is not collected. -/
  kept : m.marks.head? = some .processing → m.console.isTracked i = true →
    m.console.collect.2.isTracked i = true
  /-- A closed one without a command is. -/
  forgotten : inProgress m.marks = 0 → m.console.isOpen i = false →
    m.console.collect.2.isTracked i = false

theorem isTracked_collect (c : Console) (i : Id) :
    c.collect.2.isTracked i = (c.isTracked i && (c.isProcessing i || c.isOpen i)) := by
  let kept := c.tracked.filter fun i => c.isProcessing i || c.isOpen i
  have hkept : kept.contains i = (c.isTracked i && (c.isProcessing i || c.isOpen i)) := by
    rw [Bool.eq_iff_iff]
    simp [kept, isTracked, List.mem_filter]
  rw [← hkept]
  unfold collect
  dsimp only
  split
  next hgone =>
    have hsub : kept.Sublist c.tracked := List.filter_sublist
    have hall : kept = c.tracked := hsub.eq_of_length_le (Nat.sub_eq_zero_iff_le.mp hgone)
    rw [hall]
    rfl
  next => rfl

theorem isProcessing_iff {c : Console} :
    c.isProcessing i = true ↔ (c.sessionState i).stage = .processing :=
  decide_eq_true_iff

theorem Marked.Sound.head?_eq (hm : m.Sound i) (hmem : .processing ∈ m.marks) :
    m.marks.head? = some (m.console.sessionState i).stage := by
  cases hhead : m.marks.head? with
  | none => simp [List.head?_eq_none_iff.mp hhead] at hmem
  | some stage => rw [hm.last stage hhead]

theorem Marked.Sound.not_processing (hm : m.Sound i) (hbetween : inProgress m.marks = 0) :
    (m.console.sessionState i).stage ≠ .processing := by
  cases hmarks : m.marks with
  | nil => exact hm.idle hmarks
  | cons stage earlier =>
      rw [hm.last stage (by rw [hmarks]; rfl)]
      rintro rfl
      rw [hmarks] at hbetween
      cases hbetween

theorem eq_commandEntry {s : Session.State} (hs : s.LoggedIn) (hstage : s.stage ≠ .processing) :
    s.stage = .commandEntry := by
  unfold Session.State.LoggedIn at hs
  cases h : s.stage with
  | username => rw [h] at hs; cases hs
  | password => rw [h] at hs; cases hs
  | commandEntry => rfl
  | processing => exact absurd h hstage

theorem Marked.Sound.tells (hm : m.Sound i) : m.Tells i where
  running hpos := by
    rw [isProcessing_iff, hm.head?_eq (mem_of_inProgress hpos), Option.some_inj]
  nested hpos hlast := by
    have hmem := mem_of_inProgress hpos
    rw [hm.head?_eq hmem] at hlast ⊢
    have hstage := eq_commandEntry (hm.loggedIn hmem) fun h => hlast (congrArg some h)
    exact ⟨congrArg some hstage, hstage⟩
  ended hbetween := by
    have hstage := hm.not_processing hbetween
    refine ⟨?_, fun hmem => eq_commandEntry (hm.loggedIn hmem) hstage⟩
    rwa [← Bool.not_eq_true, isProcessing_iff]
  kept hlast htracked := by
    have hprocessing := isProcessing_iff.mpr (hm.last _ hlast)
    rw [isTracked_collect, htracked, hprocessing]
    rfl
  forgotten hbetween hclosed := by
    have hidle : m.console.isProcessing i = false := by
      rw [← Bool.not_eq_true, isProcessing_iff]
      exact hm.not_processing hbetween
    rw [isTracked_collect, hidle, hclosed]
    exact Bool.and_false _

/-- The handler of a command runs from the mark of its beginning to that of its end.  Whatever a
session is asked to do, whatever its commands have it do, however deep they are followed and
however they end, and whatever goes on around it meanwhile, it tells rightly of its commands at
every moment. -/
theorem running_shown (c : Console) (i : Id) (tasks : List Task) (m : Marked)
    (hknows : m.console.knows i = true) (hidle : m.console.isProcessing i = false)
    (hstart : m.marks = []) :
    (∀ inner found a, (Session.runCommand (c.marked i) inner found a).run = (do
        (c.marked i).count .dispatched
        (c.marked i).setStage .processing
        let sent ← Session.attend (c.marked i) inner found a
        (c.marked i).setStage .commandEntry
        return sent)) ∧
      m.Tells i ∧
      Along (Others i) (fun _ m' => m'.Tells i)
        (fun _ m' => m'.Tells i ∧ inProgress m'.marks = 0)
        (tasks.forM (Task.perform (c.marked i))) m := by
  have hm : m.Sound i := by
    refine ⟨hknows, by simp [hstart], fun _ => ?_, by simp [hstart]⟩
    rwa [ne_eq, ← isProcessing_iff, Bool.not_eq_true]
  have hbetween : Between m.marks := by rw [hstart]; rfl
  refine ⟨fun _ _ _ => Session.runCommand_run _ _ _ _, hm.tells, ?_⟩
  exact ((steady_tasks c tasks).along m hm hbetween).mono (fun _ _ h => h.1.tells)
    fun _ _ h => ⟨h.1.tells, h.2.1⟩

/-! A command that has another carried out, and then goes on. -/

/-- One command does nothing.  The other stops its session, submits the first and lets some
time pass. -/
def nesting : Session.Registry Session.Handler :=
  { entries :=
      [("inner", ⟨.ofScript [], "", ""⟩),
        ("outer", ⟨.ofScript [.stop, .submit "inner", .sleep 1], "", ""⟩)] }

/-- A console with one session, on a pipe. -/
def nestingConsole : Console :=
  let (near, _, network) := ({} : Network).addPipe 64 none none
  (attach { registry := nesting, network } near).2

/-- The session waits amid the outer command. -/
def amidOuter : Marked :=
  (Routine.advance 0 ([Task.submit "outer"].forM (Task.perform (nestingConsole.marked ⟨1⟩)))
    ⟨nestingConsole, []⟩).1

theorem running_shown_nested :
    nestingConsole.knows ⟨1⟩ = true ∧ nestingConsole.isProcessing ⟨1⟩ = false ∧
      amidOuter.Tells ⟨1⟩ := by
  have hknows : nestingConsole.knows ⟨1⟩ = true := by decide
  have hidle : nestingConsole.isProcessing ⟨1⟩ = false := by decide
  obtain ⟨-, hstart, halong⟩ :=
    running_shown nestingConsole ⟨1⟩ [.submit "outer"] ⟨nestingConsole, []⟩ hknows hidle rfl
  exact ⟨hknows, hidle, halong.advance hstart (fun _ => ⟨Std.Refl.refl _, rfl⟩) 0⟩

/-- Once a command within it has ended a running command is not seen any more, and its closed
session is collected. -/
theorem running_hidden :
    amidOuter.marks = [.commandEntry, .processing, .processing] ∧
      inProgress amidOuter.marks = 1 ∧ amidOuter.console.isProcessing ⟨1⟩ = false ∧
      amidOuter.console.isTracked ⟨1⟩ = true ∧
      amidOuter.console.collect.2.isTracked ⟨1⟩ = false := by
  decide +kernel

end RemoteConsole.Console
