/-
What a command says.  Its texts go out whole and in order, wherever its handler has them sent,
and each line feed in them is replaced just once; if the handler fails, one more line says so.
-/
import RemoteConsole.Proofs.Session.Dispatching
import RemoteConsole.Proofs.Session.History

namespace RemoteConsole

/-! Line ends. -/

namespace Text

/-- The lines of a text, with a line end between each two. -/
def rejoined (newline text : String) : String :=
  newline.intercalate ((text.toList.splitOn '\n').map String.ofList)

theorem intercalate_modifyHead_cons {α : Type} (sep : List α) (a : α) {ls : List (List α)}
    (hls : ls ≠ []) : sep.intercalate (ls.modifyHead (a :: ·)) = a :: sep.intercalate ls := by
  obtain ⟨l, ls, rfl⟩ := List.exists_cons_of_ne_nil hls
  cases ls with
  | nil => simp
  | cons l' ls => simp [List.intercalate_cons_cons]

theorem flatMap_newline (newline cs : List Char) :
    cs.flatMap (fun c => if c = '\n' then newline else [c]) =
      newline.intercalate (cs.splitOn '\n') := by
  induction cs with
  | nil => rfl
  | cons c cs ih =>
      have hne : cs.splitOn '\n' ≠ [] := List.splitOnP_ne_nil _ _
      have hcons : (c :: cs).splitOn '\n' =
          if c = '\n' then [] :: cs.splitOn '\n' else (cs.splitOn '\n').modifyHead (c :: ·) := by
        simp [List.splitOn, List.splitOnP_cons_eq_if_modifyHead]
      rw [List.flatMap_cons, ih, hcons]
      split
      · rw [List.intercalate_cons_of_ne_nil hne]
        rfl
      · rw [intercalate_modifyHead_cons _ _ hne]
        rfl

/-- Each line feed is replaced on its own. -/
theorem rejoined_eq_flatMap (newline text : String) :
    rejoined newline text =
      String.ofList (text.toList.flatMap fun c => if c = '\n' then newline.toList else [c]) := by
  apply String.toList_injective
  rw [rejoined, String.toList_ofList, flatMap_newline, String.toList_intercalate]
  simp [Function.comp_def]

theorem rejoined_append (newline a b : String) :
    rejoined newline (a ++ b) = rejoined newline a ++ rejoined newline b := by
  simp [rejoined_eq_flatMap, String.toList_append, List.flatMap_append, String.ofList_append]

/-- Nothing changes where there is no line feed, or where line feeds are the line ends. -/
theorem rejoined_eq_self {newline text : String} (h : newline = "\n" ∨ '\n' ∉ text.toList) :
    rejoined newline text = text := by
  have hkept : ∀ c ∈ text.toList, (if c = '\n' then newline.toList else [c]) = [c] := by
    intro c hc
    split
    next hfeed =>
      subst hfeed
      rcases h with rfl | hnone
      · rfl
      · exact absurd hc hnone
    next => rfl
  rw [rejoined_eq_flatMap, List.flatMap_congr hkept, List.flatMap_singleton', String.ofList_toList]

/-- The texts that are left as they are would be put together again as they were. -/
theorem withNewline_eq_rejoined (newline text : String) :
    withNewline newline text = rejoined newline text := by
  unfold withNewline
  split
  next hkept =>
    refine (rejoined_eq_self ?_).symm
    rw [Bool.or_eq_true, decide_eq_true_iff] at hkept
    exact hkept.symm.imp_right fun hnone => by simpa using hnone
  next => rw [pieces_eq_splitOnP, rejoined, List.splitOn]

theorem withNewline_append (newline a b : String) :
    withNewline newline (a ++ b) = withNewline newline a ++ withNewline newline b := by
  simp only [withNewline_eq_rejoined, rejoined_append]

theorem withNewline_eq_self {newline text : String} (h : newline = "\n" ∨ '\n' ∉ text.toList) :
    withNewline newline text = text :=
  (withNewline_eq_rejoined newline text).trans (rejoined_eq_self h)

end Text

namespace Session

variable {ρ : Type}

@[simp] theorem Config.encoded_append (c : Config) (a b : String) :
    c.encoded (a ++ b) = c.encoded a ++ c.encoded b := by
  rw [encoded, Text.withNewline_append, Text.encode_append, encoded, encoded]

@[simp] theorem Config.encoded_empty (c : Config) : c.encoded "" = [] := by
  rfl

/-! What handlers say. -/

/-- A handler has to do with nothing but its output and its tokens. -/
def Action.IsOutput : Action → Prop
  | look | write _ | writeError _ | writeUsage | flush | shift _ => True
  | _ => False

/-- A handler has to do with nothing else. -/
def Handler.OnlySpeaks : Handler → Prop
  | finish _ => True
  | perform action next => action.IsOutput ∧ ∀ reply, (next reply).OnlySpeaks
  | register _ _ _ _ _ => False

/-- The usage line of a command. -/
def Config.usageLine (c : Config) (a : Arguments) : String :=
  c.usageLead ++ a.command ++ (if a.usage = "" then "" else " " ++ a.usage) ++ "\n"

/-- A handler says texts one after the other, and ends somehow.  Sending what is collected
says nothing. -/
inductive Speaks (c : Config) (history : List String) :
    Handler → Arguments → List String → Outcome → Prop
  | finish {a : Arguments} (outcome : Outcome) : Speaks c history (.finish outcome) a [] outcome
  | look {a : Arguments} {next : View → Handler} {texts : List String} {outcome : Outcome} :
      Speaks c history (next ⟨a, .processing, history⟩) a texts outcome →
        Speaks c history (.perform .look next) a texts outcome
  | write {a : Arguments} {next : Unit → Handler} {texts : List String} {outcome : Outcome}
      (text : String) : Speaks c history (next ()) (a.write text) texts outcome →
        Speaks c history (.perform (.write text) next) a (text :: texts) outcome
  | writeError {a : Arguments} {next : Unit → Handler} {texts : List String} {outcome : Outcome}
      (message : String) : Speaks c history (next ()) (a.writeError c message) texts outcome →
        Speaks c history (.perform (.writeError message) next) a
          (c.errorLine a.command message :: texts) outcome
  | writeUsage {a : Arguments} {next : Unit → Handler} {texts : List String} {outcome : Outcome} :
      Speaks c history (next ()) (a.writeUsage c) texts outcome →
        Speaks c history (.perform .writeUsage next) a (c.usageLine a :: texts) outcome
  | shift {a : Arguments} {next : Unit → Handler} {texts : List String} {outcome : Outcome}
      (count : Nat) : Speaks c history (next ()) (a.shift count) texts outcome →
        Speaks c history (.perform (.shift count) next) a texts outcome
  | flush {a : Arguments} {next : Except Error Unit → Handler} {texts : List String}
      {outcome : Outcome} : Speaks c history (next (.ok ())) { a with output := "" } texts outcome →
        Speaks c history (.perform .flush next) a texts outcome

/-- Such a handler says something and ends. -/
theorem Handler.OnlySpeaks.exists_speaks {handler : Handler} (honly : handler.OnlySpeaks)
    (c : Config) (history : List String) (a : Arguments) :
    ∃ texts outcome, Speaks c history handler a texts outcome := by
  induction handler generalizing a with
  | finish outcome => exact ⟨[], outcome, .finish outcome⟩
  | register names help usage handler next _ _ => cases honly
  | perform action next ih =>
      obtain ⟨hallowed, hnext⟩ := honly
      cases action with
      | look =>
          obtain ⟨texts, outcome, h⟩ := ih ⟨a, .processing, history⟩ (hnext _) a
          exact ⟨texts, outcome, .look h⟩
      | write text =>
          obtain ⟨texts, outcome, h⟩ := ih () (hnext _) (a.write text)
          exact ⟨_, outcome, .write text h⟩
      | writeError message =>
          obtain ⟨texts, outcome, h⟩ := ih () (hnext _) (a.writeError c message)
          exact ⟨_, outcome, .writeError message h⟩
      | writeUsage =>
          obtain ⟨texts, outcome, h⟩ := ih () (hnext _) (a.writeUsage c)
          exact ⟨_, outcome, .writeUsage h⟩
      | shift count =>
          obtain ⟨texts, outcome, h⟩ := ih () (hnext _) (a.shift count)
          exact ⟨texts, outcome, .shift count h⟩
      | flush =>
          obtain ⟨texts, outcome, h⟩ := ih (.ok ()) (hnext _) { a with output := "" }
          exact ⟨texts, outcome, .flush h⟩
      | prompt | help | sendLine _ | sendBytes _ | stop | setRequireEcho _ | submit _ | typeIn _
      | unregister _ | note _ | sleep _ | broadcast _ | collect | removeSession _ => cases hallowed

/-! What is written. -/

/-- Work on output comes to a value in worlds that are as assumed.  What it wrote, with what is
left of the output, is the output that was there and a text. -/
def Adds {α : Type} (base : Host (Around ρ)) (Good : ρ → Prop) (a : Arguments) (text : String)
    (x : Course ρ (α × Arguments)) (value : α) (s : Sitting ρ) : Prop :=
  ∃ b ds, Comes Good x s (value, b) s.state ds ∧ b.command = a.command ∧
    written ds ++ base.config.encoded b.output = base.config.encoded (a.output ++ text)

/-- The channel takes everything in worlds that are as assumed, and looking up commands and
counting them keep to such worlds. -/
structure Host.TakesWrites (base : Host (Around ρ)) (Good : ρ → Prop) : Prop where
  write : ∀ bytes s w, Good w →
    ((base.channel.write bytes s).run w).1 = .ok () ∧ Good ((base.channel.write bytes s).run w).2
  registry : ∀ s w, Good w → Good ((base.registry.run s).run w).2
  count : ∀ metric s w, Good w → Good ((base.count metric s).run w).2

section

variable {base : Host (Around ρ)} {Good : ρ → Prop} (htakes : base.TakesWrites Good)

include htakes

theorem comes_flush {s : Sitting ρ} (hs : Good s.world) (a : Arguments) :
    ∃ ds, Comes Good (flush base.seated a) s (.ok (), { a with output := "" }) s.state ds ∧
      written ds = base.config.encoded a.output := by
  rw [flush]
  split
  next hempty =>
    have hsame : { a with output := "" } = a := by rw [← hempty]
    refine ⟨[], ?_, by rw [hempty]; simp⟩
    rw [hsame]
    exact Comes.done _ hs
  next =>
    have hsend : Comes Good (sendText base.seated a.output).run s (.ok ()) s.state
        [.wrote (base.config.encoded a.output)] :=
      comes_sendBytes_of_write hs (htakes.write _)
    refine ⟨_, hsend.bind fun w hw => Comes.done _ hw, by simp [written]⟩

omit htakes in
/-- An action, and then the rest of a handler. -/
theorem Adds.step {i : Inner (Course ρ)} {action : Action} {next : action.Reply → Handler}
    {reply : action.Reply} {a b : Arguments} {text texts : String} {outcome : Outcome}
    {s : Sitting ρ} {ds : List Deed}
    (hact : Comes Good (act base.seated i a action) s (reply, b) s.state ds)
    (hcommand : b.command = a.command)
    (hwritten : written ds ++ base.config.encoded b.output =
      base.config.encoded (a.output ++ text))
    (hnext : ∀ w, Good w → Adds base Good b texts (perform base.seated i (next reply) b) outcome
      ⟨s.state, w⟩) :
    Adds base Good a (text ++ texts) (perform base.seated i (.perform action next) a) outcome
      s := by
  obtain ⟨w, hw, hact⟩ := hact
  obtain ⟨b', es, ⟨w', hw', hrest⟩, hcommand', hwritten'⟩ := hnext w hw
  refine ⟨b', ds ++ es, ⟨w', hw', ?_⟩, hcommand'.trans hcommand, ?_⟩
  · rw [perform, Recorded.bind_run, hact]
    dsimp only
    rw [hrest]
  · calc written (ds ++ es) ++ base.config.encoded b'.output
        = written ds ++ base.config.encoded (b.output ++ texts) := by
          rw [written_append, List.append_assoc, hwritten']
      _ = base.config.encoded (a.output ++ (text ++ texts)) := by
          rw [Config.encoded_append, ← List.append_assoc, hwritten]
          simp only [Config.encoded_append, List.append_assoc]

omit htakes in
/-- An action that does nothing but collect a text, and then the rest of a handler. -/
theorem Adds.collect {i : Inner (Course ρ)} {action : Action} {next : action.Reply → Handler}
    {reply : action.Reply} {a b : Arguments} {text texts : String} {outcome : Outcome}
    {s : Sitting ρ} (hs : Good s.world) (hact : act base.seated i a action = pure (reply, b))
    (hcommand : b.command = a.command) (houtput : b.output = a.output ++ text)
    (hnext : ∀ w, Good w → Adds base Good b texts (perform base.seated i (next reply) b) outcome
      ⟨s.state, w⟩) :
    Adds base Good a (text ++ texts) (perform base.seated i (.perform action next) a) outcome
      s := by
  have hcomes : Comes Good (act base.seated i a action) s (reply, b) s.state [] := by
    rw [hact]
    exact Comes.done _ hs
  exact .step hcomes hcommand (by rw [houtput, written_nil, List.nil_append]) hnext

theorem Speaks.adds {history : List String} {i : Inner (Course ρ)} {handler : Handler}
    {a : Arguments} {texts : List String} {outcome : Outcome}
    (hspeaks : Speaks base.config history handler a texts outcome) {s : Sitting ρ}
    (hs : Good s.world) (hstage : s.state.stage = .processing)
    (hhistory : s.state.history.toList = history) :
    Adds base Good a (String.join texts) (perform base.seated i handler a) outcome s := by
  -- Nothing but sending what is collected touches the world, and nothing touches the memory.
  induction hspeaks generalizing s with
  | finish outcome => exact ⟨_, [], Comes.done _ hs, rfl, by simp⟩
  | @look a next texts outcome _ ih =>
      have hlook : Comes Good (act base.seated i a .look) s
          (⟨a, .processing, history⟩, a) s.state [] := by
        refine ⟨s.world, hs, ?_⟩
        rw [← hstage, ← hhistory]
        rfl
      rw [← String.empty_append (s := String.join texts)]
      exact .step hlook rfl (by simp) fun w hw => ih hw hstage hhistory
  | write text _ ih =>
      rw [String.join_cons]
      exact .collect hs rfl rfl rfl fun w hw => ih hw hstage hhistory
  | writeError message _ ih =>
      rw [String.join_cons]
      exact .collect hs rfl rfl rfl fun w hw => ih hw hstage hhistory
  | writeUsage _ ih =>
      rw [String.join_cons]
      exact .collect hs rfl rfl rfl fun w hw => ih hw hstage hhistory
  | @shift a next texts outcome count _ ih =>
      rw [← String.empty_append (s := String.join texts)]
      exact .collect hs rfl rfl String.append_empty.symm fun w hw => ih hw hstage hhistory
  | @flush a next texts outcome _ ih =>
      obtain ⟨ds, hflush, hwritten⟩ := comes_flush htakes hs a
      rw [← String.empty_append (s := String.join texts)]
      exact .step hflush rfl (by simp [hwritten]) fun w hw => ih hw hstage hhistory

/-- The handler of a command, and what is said in the end if it fails. -/
theorem comes_handle {i : Inner (Course ρ)} {found : Match Handler} {line text : String}
    {outcome : Outcome} {s : Sitting ρ}
    (hadds : Adds base Good (given line found) text
      (perform base.seated i found.entry.handler (given line found)) outcome s) :
    ∃ b ds, Comes Good (handle base.seated i found (.ofLine line)) s b s.state ds ∧
      written ds ++ base.config.encoded b.output =
        base.config.encoded (text ++ outcome.report base.config found.name) := by
  obtain ⟨b, ds, hperform, hcommand, hwritten⟩ := hadds
  have houtput : (given line found).output = "" := rfl
  rw [houtput, String.empty_append] at hwritten
  have hreport {e : Deed} (he : written [e] = []) (message : String) :
      written (ds ++ [e]) ++ base.config.encoded (b.writeError base.config message).output =
        base.config.encoded (text ++ base.config.errorLine found.name message) := by
    have hline : (b.writeError base.config message).output =
        b.output ++ base.config.errorLine b.command message := rfl
    rw [hline, hcommand, Config.encoded_append, Config.encoded_append, ← hwritten, written_append,
      he, List.append_nil, List.append_assoc]
    rfl
  have hcount : ∀ w, Good w → Comes Good (base.seated.count .failed) ⟨s.state, w⟩ () s.state
      [.counted .failed] :=
    fun w hw => ⟨_, htakes.count .failed s.state w hw, rfl⟩
  cases outcome with
  | succeeded =>
      refine ⟨b, ds ++ [], hperform.bind fun w hw => Comes.done _ hw, ?_⟩
      rw [List.append_nil, hwritten, Outcome.report, String.append_empty]
  | failed e =>
      exact ⟨_, _, hperform.bind fun w hw => (hcount w hw).bind fun w hw => Comes.done _ hw,
        hreport rfl e.message⟩
  | crashed =>
      exact ⟨_, _, hperform.bind fun w hw => (hcount w hw).bind fun w hw => Comes.done _ hw,
        hreport rfl "internal error"⟩

/-- A command, from its handler to the last of its output. -/
theorem comes_command (i : Inner (Course ρ)) {found : Match Handler} {line : String}
    {texts : List String} {outcome : Outcome} {s : Sitting ρ} (hs : Good s.world)
    (hspeaks : Speaks base.config s.state.history.toList found.entry.handler (given line found)
      texts outcome) :
    ∃ ds, Comes Good (runCommand base.seated i found (.ofLine line)).run s (.ok ())
        { s.state with stage := .commandEntry } ds ∧
      written ds = base.config.encoded
        (String.join texts ++ outcome.report base.config found.name) := by
  have hbegun : Good (processing base s).world := htakes.count .dispatched s.state s.world hs
  obtain ⟨b, ds, ⟨w, hw, hhandle⟩, hwritten⟩ :=
    comes_handle htakes (hspeaks.adds (i := i) htakes (s := processing base s) hbegun rfl rfl)
  obtain ⟨es, ⟨w', hw', hflush⟩, hsent⟩ :=
    comes_flush htakes (s := ⟨(processing base s).state, w⟩) hw b
  refine ⟨_, ⟨w', hw', runCommand_seated base i hhandle hflush⟩, ?_⟩
  rw [← hwritten, ← hsent]
  simp [written]

/-- Dispatching a line that begins with a command. -/
theorem comes_dispatch (i : Inner (Course ρ)) {found : Match Handler} {line : String}
    {texts : List String} {outcome : Outcome} {s : Sitting ρ} (hs : Good s.world)
    (hfound : ((base.registry.run s.state).run s.world).1.longest (Text.tokens line) = some found)
    (hspeaks : Speaks base.config s.state.history.toList found.entry.handler (given line found)
      texts outcome) :
    ∃ ds, Comes Good (dispatch base.seated i line).run s (.ok ())
        { s.state with stage := .commandEntry } ds ∧
      written ds = base.config.encoded
        (String.join texts ++ outcome.report base.config found.name) := by
  have hconsulted : Good (consulting base s).world := htakes.registry s.state s.world hs
  obtain ⟨ds, ⟨w, hw, hrun⟩, hwritten⟩ :=
    comes_command htakes i (s := consulting base s) hconsulted hspeaks
  refine ⟨.consulted :: ds, ⟨w, hw, ?_⟩, hwritten⟩
  rw [dispatch_run hfound]
  dsimp only [follow]
  rw [hrun]
  rfl

end

/-- Work succeeds and leaves a certain memory.  What it wrote is a text with its line feeds
replaced. -/
structure Delivers (c : Config) (text : String) (after : State)
    (run : Ran (Sitting ρ) Deed (Except Error Unit)) : Prop where
  result : run.result = .ok ()
  written : written run.deeds = Text.encode (Text.rejoined c.newline text)
  state : run.state.state = after

theorem Comes.delivers {base : Host (Around ρ)} {Good : ρ → Prop} {x : Work (Course ρ) Unit}
    {s : Sitting ρ} {after : State} {text : String} {ds : List Deed}
    (hx : Comes Good x.run s (.ok ()) after ds) (hwritten : written ds = base.config.encoded text) :
    Delivers base.config text after (x.run s) := by
  obtain ⟨w, -, hrun⟩ := hx
  rw [hrun]
  exact ⟨rfl, hwritten.trans (by rw [Config.encoded, Text.withNewline_eq_rejoined]), rfl⟩

/-- What a command says goes out whole, in order and with each line feed replaced once, wherever
its handler has it sent, and one more line says so if it fails.  Dispatching succeeds whatever
the handler comes to, commands are taken again, and a line that was submitted is remembered. -/
theorem output_complete (base : Host (Around ρ)) {Good : ρ → Prop}
    (htakes : base.TakesWrites Good) (i : Inner (Course ρ)) {s : Sitting ρ} (hs : Good s.world)
    {line : String} {found : Match Handler}
    (hfound : ((base.registry.run s.state).run s.world).1.longest (Text.tokens line) =
      some found) :
    let spoken := Speaks base.config s.state.history.toList found.entry.handler (given line found)
    let after : State := { s.state with stage := .commandEntry }
    (∀ texts outcome, spoken texts outcome →
        let text := String.join texts ++ outcome.report base.config found.name
        Delivers base.config text after ((dispatch base.seated i line).run s) ∧
          ∀ submitted, turn base.config s.state.history submitted = .dispatches line →
            Delivers base.config text { after with history := s.state.history.add line }
              ((submitLine base.seated i submitted).run s)) ∧
      (found.entry.handler.OnlySpeaks → ∃ texts outcome, spoken texts outcome) ∧
      ∀ newline a b : String,
        Text.withNewline newline (a ++ b) =
            Text.withNewline newline a ++ Text.withNewline newline b ∧
          Text.withNewline newline a = Text.rejoined newline a ∧
          (newline = "\n" ∨ '\n' ∉ a.toList → Text.withNewline newline a = a) := by
  intro spoken after
  refine ⟨fun texts outcome hspeaks => ?_, fun honly => honly.exists_speaks _ _ _,
    fun newline a b => ⟨Text.withNewline_append newline a b,
      Text.withNewline_eq_rejoined newline a, Text.withNewline_eq_self⟩⟩
  obtain ⟨ds, hdispatch, hwritten⟩ := comes_dispatch htakes i hs hfound hspeaks
  refine ⟨hdispatch.delivers hwritten, fun submitted hturn => ?_⟩
  have hturned : Comes Good (takeTurn base.seated i s.state.history.toList (.dispatches line)).run s
      (.ok ()) { after with history := s.state.history.add line } (ds ++ []) :=
    hdispatch.seq fun w hw => (comes_update hw _).lift
  rw [submitLine_eq_takeTurn, hturn]
  exact hturned.delivers (by rw [List.append_nil, hwritten])

theorem Desk.takesWrites_around {d : Desk} (hplain : d.link = none) :
    d.around.TakesWrites Ready where
  write := (accepts_around hplain).write
  registry _ _ hw := hw
  count := (accepts_around hplain).count

/-- A command that says things of every kind, has some sent early, and fails. -/
def talker : Entry Handler :=
  ⟨.ofScript [.text "one\ntwo" 1, .flush, .shift 1, .echo, .error "first", .flush, .flush, .usage,
    .fail (.other "last")], "", "<word>"⟩

/-- A desk where it is known.  Its line end holds a line feed itself. -/
def podium : Desk :=
  .initial ⟨1⟩ { newline := "+\n" } {} none ⟨[("talk", talker)]⟩

theorem output_complete_podium :
    let base := podium.around
    let s : Sitting Desk := ⟨.initial base.config, podium⟩
    let run := (submitLine base.seated base.seated.itself " talk a b ").run s
    run.result = .ok () ∧ run.state.state.stage = .commandEntry ∧
      run.state.state.history.toList = ["talk a b"] ∧
      written run.deeds = Text.encode ("one+\ntwob+\ntalk: error: first+\n" ++
        "Usage: talk <word>+\ntalk: error: last+\n") := by
  intro base s run
  let found : Match Handler := ⟨1, "talk", talker⟩
  have htokens : Text.tokens "talk a b" = ["talk", "a", "b"] := by decide +kernel
  have hfound : ((base.registry.run s.state).run s.world).1.longest (Text.tokens "talk a b") =
      some found := by
    rw [htokens]
    rfl
  obtain ⟨texts, hspeaks, htexts⟩ : ∃ texts, Speaks base.config s.state.history.toList
      found.entry.handler (given "talk a b" found) texts (.failed (.other "last")) ∧
      String.join texts = "one\ntwob\ntalk: error: first\nUsage: talk <word>\n" :=
    ⟨_, .write _ (.flush (.shift 1 (.look (.write _ (.writeError _ (.flush (.flush
      (.writeUsage (.finish _))))))))), by decide +kernel⟩
  obtain ⟨hcomplete, -, -⟩ := output_complete base (Desk.takesWrites_around rfl)
    base.seated.itself (s := s) ⟨rfl, rfl⟩ hfound
  obtain ⟨-, hsubmit⟩ := hcomplete texts _ hspeaks
  obtain ⟨hresult, hwritten, hstate⟩ := hsubmit " talk a b " (by decide +kernel)
  refine ⟨hresult, ?_, ?_, ?_⟩
  · rw [hstate]
  · rw [hstate]
    rfl
  · rw [hwritten, htexts]
    decide +kernel

end Session

end RemoteConsole
