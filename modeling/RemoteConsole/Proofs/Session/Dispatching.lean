/-
Dispatching a line.  The longest command that its tokens begin with is carried out once, with
the tokens after its name; and where there is none, nothing is done but to say so.
-/
import RemoteConsole.Proofs.Session.Login
import RemoteConsole.Proofs.Session.LongestName
import RemoteConsole.Session.Script

namespace RemoteConsole.Session

variable {ρ : Type}

/-! What dispatching comes to. -/

/-- The error line of a command. -/
def Config.errorLine (c : Config) (command message : String) : String :=
  command ++ c.errorLead ++ message ++ "\n"

/-- What is said in the end of a command that fails. -/
def Outcome.report (c : Config) (command : String) : Outcome → String
  | succeeded => ""
  | failed e => c.errorLine command e.message
  | crashed => c.errorLine command "internal error"

/-- What is counted in the end of a command. -/
def Outcome.counts : Outcome → List Deed
  | succeeded => []
  | failed _ | crashed => [.counted .failed]

/-- The output of a command is sent if there is any. -/
def Config.sends (c : Config) (output : String) : List Deed :=
  if output = "" then [] else [.wrote (c.encoded output)]

/-- What a command is given: the tokens after its name, and no output yet. -/
def given {H : Type} (line : String) (m : Match H) : Arguments where
  line := line
  tokens := (Text.tokens line).drop m.count
  command := m.name
  usage := m.entry.usage

section

variable (base : Host (Around ρ)) (i : Inner (Course ρ)) (line : String)

/-- A session that has looked at the commands. -/
def consulting (s : Sitting ρ) : Sitting ρ :=
  { s with world := ((base.registry.run s.state).run s.world).2 }

/-- A session that has counted a command and is in its stage. -/
def processing (s : Sitting ρ) : Sitting ρ :=
  { (base.seated.count .dispatched s).state with state := { s.state with stage := .processing } }

/-- The handler of a command is run once, with what it is given.  Nothing else is done but to
count the command and its failure, and to send the output that is left. -/
def Invokes (m : Match Handler) (s : Sitting ρ) : Prop :=
  let run := (dispatch base.seated i line).run s
  let handled := perform base.seated i m.entry.handler (given line m)
    (processing base (consulting base s))
  let outcome := handled.result.1
  let left := handled.result.2
  run.deeds = [.consulted, .counted .dispatched, .entered .processing] ++ handled.deeds ++
      outcome.counts ++
      base.config.sends (left.output ++ outcome.report base.config left.command) ++
      [.entered .commandEntry] ∧
    run.state.state = { handled.state.state with stage := .commandEntry }

/-- No handler is run, and nothing is written but that the command is unknown. -/
def Refuses (s : Sitting ρ) : Prop :=
  let run := (dispatch base.seated i line).run s
  run.deeds = [.consulted, .counted .unknown,
      .wrote (base.config.encoded (base.config.unknownCommandError ++ "\n"))] ∧
    run.state.state = s.state

end

section

variable (base : Host (Around ρ)) (i : Inner (Course ρ))

theorem flush_seated (a : Arguments) (s : Sitting ρ) :
    ∃ result w, flush base.seated a s = ⟨result, ⟨s.state, w⟩, base.config.sends a.output⟩ := by
  rw [flush, Config.sends]
  split
  · exact ⟨_, _, rfl⟩
  · obtain ⟨result, w, hsend⟩ := sendBytes_run base (base.config.encoded a.output) s
    have hrun : (sendText base.seated a.output).run s = _ := hsend
    refine ⟨(result, { a with output := "" }), w, ?_⟩
    rw [Recorded.bind_run, hrun]
    rfl

/-- Once a handler is done, no more is done than to count its failure and to report it. -/
theorem handle_seated (found : Match Handler) (a : Arguments) (s : Sitting ρ) :
    let handled := perform base.seated i found.entry.handler
      (a.bind found.count found.name found.entry.usage) s
    ∃ b w, handle base.seated i found a s =
        ⟨b, ⟨handled.state.state, w⟩, handled.deeds ++ handled.result.1.counts⟩ ∧
      b.output = handled.result.2.output ++
        handled.result.1.report base.config handled.result.2.command := by
  dsimp only
  rw [handle, Recorded.bind_run]
  rcases perform base.seated i found.entry.handler
    (a.bind found.count found.name found.entry.usage) s with ⟨⟨outcome, b⟩, t, ds⟩
  cases outcome with
  | succeeded => exact ⟨b, t.world, rfl, String.append_empty.symm⟩
  | failed e => exact ⟨_, _, rfl, rfl⟩
  | crashed => exact ⟨_, _, rfl, rfl⟩

theorem runCommand_seated {found : Match Handler} {a b : Arguments} {s t u : Sitting ρ}
    {result : Except Error Unit × Arguments} {ds es : List Deed}
    (hhandle : handle base.seated i found a (processing base s) = ⟨b, t, ds⟩)
    (hflush : flush base.seated b t = ⟨result, u, es⟩) :
    (runCommand base.seated i found a).run s =
      ⟨result.1, { u with state := { u.state with stage := .commandEntry } },
        [.counted .dispatched, .entered .processing] ++ ds ++ es ++ [.entered .commandEntry]⟩ := by
  have hrun : (runCommand base.seated i found a).run s =
      let handled := handle base.seated i found a (processing base s)
      let sent := flush base.seated handled.result handled.state
      ⟨sent.result.1,
        { sent.state with state := { sent.state.state with stage := .commandEntry } },
        [.counted .dispatched, .entered .processing] ++ handled.deeds ++ sent.deeds ++
          [.entered .commandEntry]⟩ := by
    rw [runCommand_run, attend_eq]
    simp only [Recorded.bind_run, Recorded.pure_run, List.append_nil, List.append_assoc]
    rfl
  rw [hrun, hhandle]
  dsimp only
  rw [hflush]

/-- What is done about a line once a command is found for it or not. -/
def follow (line : String) : Option (Match Handler) → Work (Course ρ) Unit
  | none => do
      (base.seated.count .unknown : Course ρ Unit)
      sendLine base.seated base.config.unknownCommandError
  | some found => runCommand base.seated i found (.ofLine line)

variable {base i} {line : String} {s : Sitting ρ}

/-- The commands are looked at once. -/
theorem dispatch_run {found : Option (Match Handler)}
    (hfound : ((base.registry.run s.state).run s.world).1.longest (Text.tokens line) = found) :
    (dispatch base.seated i line).run s =
      let followed := (follow base i line found).run (consulting base s)
      { followed with deeds := .consulted :: followed.deeds } := by
  subst hfound
  rfl

theorem invokes_of_longest {m : Match Handler}
    (hfound : ((base.registry.run s.state).run s.world).1.longest (Text.tokens line) = some m) :
    Invokes base i line m s := by
  let begun := processing base (consulting base s)
  let handled := perform base.seated i m.entry.handler (given line m) begun
  obtain ⟨b, w, hhandle, houtput⟩ := handle_seated base i m (.ofLine line) begun
  obtain ⟨result, w', hflush⟩ := flush_seated base b ⟨handled.state.state, w⟩
  have hrun := dispatch_run (i := i) hfound
  dsimp only [follow] at hrun
  rw [runCommand_seated base i hhandle hflush, houtput] at hrun
  rw [Invokes, hrun]
  refine ⟨?_, rfl⟩
  simp only [List.cons_append, List.nil_append, List.append_assoc]
  rfl

theorem refuses_of_none
    (hnone : ((base.registry.run s.state).run s.world).1.longest (Text.tokens line) = none) :
    Refuses base i line s := by
  let message := base.config.encoded (base.config.unknownCommandError ++ "\n")
  let counted := (base.seated.count .unknown (consulting base s)).state
  obtain ⟨result, w, hsend⟩ := sendBytes_run base message counted
  have hrun : (dispatch base.seated i line).run s =
      let sent := (sendBytes base.seated message).run counted
      { sent with deeds := .consulted :: .counted .unknown :: sent.deeds } := dispatch_run hnone
  rw [Refuses, hrun, hsend]
  exact ⟨rfl, rfl⟩

end

/-- Whatever was registered and removed before, the longest prefix of the tokens that spells a
command is found, over any gap; for tokens that are words it is the command of the most words
that they begin with.  Its handler is run once, with the tokens that follow; where nothing is
found, only that is said.  All this depends on what is registered, and not on the order. -/
theorem longest_command_wins (base : Host (Around ρ)) (calls : List (Registry.Call Handler)) :
    let r := ({} : Registry Handler).after calls
    let d := (Dictionary.empty : Dictionary Handler).after calls
    (∀ tokens : List String,
        (∀ m, r.longest tokens = some m ↔ IsLongest d.Knows tokens 0 m) ∧
        (r.longest tokens = none ↔ NoneBeyond d.Knows tokens 0) ∧
        ((∀ t ∈ tokens, Text.IsWord t) → ∀ m, r.longest tokens = some m ↔
          ∃ n, d.BeginsWith tokens n ∧ d.find n = some m.entry ∧ m.name = n.spelling ∧
            m.count = n.words.length)) ∧
      (∀ (i : Inner (Course ρ)) (line : String) (s : Sitting ρ),
        ((base.registry.run s.state).run s.world).1 = r →
          (∀ m, r.longest (Text.tokens line) = some m → Invokes base i line m s) ∧
          (r.longest (Text.tokens line) = none → Refuses base i line s)) ∧
      (∀ calls', (∀ n, ((Dictionary.empty : Dictionary Handler).after calls').find n = d.find n) →
        ({} : Registry Handler).after calls' = r) ∧
      ∀ commands commands' : List (String × Entry Handler), commands.Perm commands' →
        (∀ a ∈ r.answers (registering commands), a = .done true) →
          (∀ a ∈ r.answers (registering commands'), a = .done true) ∧
            r.after (registering commands') = r.after (registering commands) := by
  intro r d
  have hagrees : r.Agrees d := Registry.agrees_empty.after calls
  refine ⟨fun tokens => ⟨fun m => ?_, ?_, fun hwords m => ?_⟩, fun i line s hr => ⟨fun m hm => ?_,
    fun hnone => ?_⟩, fun calls' hfind => ?_, fun commands commands' hperm hdone => ?_⟩
  · rw [Registry.longest_eq_some_iff, hagrees.knows_eq]
  · rw [Registry.longest_eq_none_iff, hagrees.knows_eq]
  · rw [Registry.longest_eq_some_iff, hagrees.knows_eq]
    exact isLongest_iff_beginsWith hwords
  · exact invokes_of_longest (hr ▸ hm)
  · exact refuses_of_none (hr ▸ hnone)
  · exact (Registry.agrees_empty.after calls').eq_of_find_eq hagrees hfind
  · exact hagrees.registering_perm hperm hdone

/-- A command that tells what it was given. -/
def teller (usage : String) : Entry Handler :=
  ⟨.ofScript [.noteArguments], "", usage⟩

/-- Commands of one word and of two; what one of them begins with is no command. -/
def switches : List (String × Entry Handler) :=
  [("show", teller "<what>"), ("show version\nversion", teller "[part]"), ("a  b", teller "")]

/-- The same, once another one was known for a while. -/
def switching : List (Registry.Call Handler) :=
  registering (("a", teller "none") :: switches) ++ [.remove "a"]

/-- A desk where they are known. -/
def switchboard : Desk :=
  .initial ⟨1⟩ {} {} none (({} : Registry Handler).after switching)

/-- The command, the usage, the line and the tokens that a handler told of. -/
def Deed.told? : Deed → Option (String × String × String × List String)
  | .noted (.arguments command usage line tokens) => some (command, usage, line, tokens)
  | _ => none

theorem longest_command_wins_switchboard :
    let base := switchboard.around
    let i := base.seated.itself
    let s : Sitting Desk := ⟨.initial base.config, switchboard⟩
    let told (line : String) := ((dispatch base.seated i line).run s).deeds.filterMap Deed.told?
    (∃ m, (m.count, m.name, m.entry.usage) = (2, "show version", "[part]") ∧
        Invokes base i "show version \"all of it\"" m s) ∧
      told "show version \"all of it\"" =
        [("show version", "[part]", "show version \"all of it\"", ["all of it"])] ∧
      (∃ m, (m.count, m.name, m.entry.usage) = (2, "a b", "") ∧ Invokes base i "a b" m s ∧
        ∃ n, ((Dictionary.empty : Dictionary Handler).after switching).BeginsWith ["a", "b"] n ∧
          n.words.length = 2) ∧
      told "a b" = [("a b", "", "a b", [])] ∧
      Refuses base i "a c" s ∧ told "a c" = [] ∧
      ({} : Registry Handler).after (registering switches.reverse) =
        ({} : Registry Handler).after (registering switches) := by
  intro base i s told
  obtain ⟨hlongest, hdispatch, -, -⟩ := longest_command_wins base switching
  let r := ({} : Registry Handler).after switching
  have hfinds (tokens : List String) (known : Nat × String × String)
      (h : (r.longest tokens).map (fun m => (m.count, m.name, m.entry.usage)) = some known) :
      ∃ m, r.longest tokens = some m ∧ (m.count, m.name, m.entry.usage) = known :=
    Option.map_eq_some_iff.mp h
  have hwords : ∀ t ∈ ["a", "b"], Text.IsWord t := by
    have hwords : Text.words "a b" = ["a", "b"] := by decide +kernel
    exact fun t ht => Text.isWord_of_mem_words (hwords ▸ ht)
  refine ⟨?_, by decide +kernel, ?_, by decide +kernel, ?_, by decide +kernel, ?_⟩
  · obtain ⟨m, hm, hknown⟩ := hfinds (Text.tokens "show version \"all of it\"")
      (2, "show version", "[part]") (by decide +kernel)
    exact ⟨m, hknown, (hdispatch i _ s rfl).1 m hm⟩
  · obtain ⟨m, hm, hknown⟩ := hfinds (Text.tokens "a b") (2, "a b", "") (by decide +kernel)
    have htokens : Text.tokens "a b" = ["a", "b"] := by decide +kernel
    obtain ⟨n, hbegins, -, -, hcount⟩ := ((hlongest _).2.2 hwords m).mp (htokens ▸ hm)
    refine ⟨m, hknown, (hdispatch i _ s rfl).1 m hm, n, hbegins, ?_⟩
    rw [← hcount]
    exact congrArg Prod.fst hknown
  · have hnone : r.longest (Text.tokens "a c") = none := by
      rw [← Option.map_eq_none_iff (f := fun m : Match Handler => m.count)]
      decide +kernel
    exact (hdispatch i _ s rfl).2 hnone
  · have hdone : ∀ a ∈ ({} : Registry Handler).answers (registering switches), a = .done true := by
      have hanswers : ({} : Registry Handler).answers (registering switches) =
          [.done true, .done true, .done true] := rfl
      simp [hanswers]
    obtain ⟨-, -, -, hperm⟩ := longest_command_wins base []
    exact (hperm switches switches.reverse (List.reverse_perm _).symm hdone).2

end RemoteConsole.Session
