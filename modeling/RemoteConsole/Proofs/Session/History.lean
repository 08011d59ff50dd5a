/-
The history of a session.  It holds the lines that were dispatched, in order; and no line in
it stands for another one, so that lines are replaced at most once before they are dispatched.
-/
import Mathlib.Data.List.DropRight
import Mathlib.Data.Nat.Digits.Defs
import RemoteConsole.Proofs.Session.Surroundings

namespace RemoteConsole.Session

/-- Dropping blanks a second time changes nothing. -/
theorem trim_trim (text : String) : Text.trim (Text.trim text) = Text.trim text := by
  let left := text.toList.dropWhile Text.isBlank
  have htrim : Text.trim text = String.ofList (left.rdropWhile Text.isBlank) := rfl
  have hleft : (left.rdropWhile Text.isBlank).dropWhile Text.isBlank =
      left.rdropWhile Text.isBlank := by
    rw [List.dropWhile_eq_self_iff]
    intro hpos
    have htrimmed : left.rdropWhile Text.isBlank <+: left := List.rdropWhile_prefix _ _
    rw [htrimmed.getElem hpos]
    exact List.dropWhile_get_zero_not _ _ (hpos.trans_le htrimmed.length_le)
  have htwice : Text.trim (Text.trim text) =
      String.ofList (((left.rdropWhile Text.isBlank).dropWhile Text.isBlank).rdropWhile
        Text.isBlank) := by
    rw [htrim, Text.trim, String.toList_ofList]
    rfl
  rw [htwice, hleft, List.rdropWhile_idempotent, htrim]

/-! What lines stand for. -/

/-- A text is a number in decimal, with a plus sign or without. -/
def Decimal (text : String) (n : Nat) : Prop :=
  ∃ digits : List Char, (text.toList = digits ∨ text.toList = '+' :: digits) ∧ digits ≠ [] ∧
    (∀ d ∈ digits, d.isDigit = true) ∧
      n = Nat.ofDigits 10 (digits.reverse.map fun d => d.toNat - '0'.toNat)

/-- A line that does not stand for another one. -/
structure IsEntry (c : Config) (line : String) : Prop where
  trimmed : Text.trim line = line
  ne_empty : line ≠ ""
  not_exit : c.isExit line = false
  not_help : c.isHelp line = false
  ne_repeat : line ≠ c.repeatCommand
  no_reference : c.historyCommand ≠ "" → ¬ c.historyCommand.toList <+: line.toList

/-- What a session does about a line. -/
inductive Turn where
  | ignores
  | exits
  | helps
  /-- It shows the history. -/
  | lists
  /-- The history holds no such line. -/
  | misses
  | dispatches (line : String)
deriving DecidableEq, Repr

namespace Turn

/-- The line that is dispatched. -/
def line? : Turn → Option String
  | dispatches line => some line
  | _ => none

/-- To dispatch an entry of the history, if there is one. -/
def recalling : Option String → Turn
  | some entry => dispatches entry
  | none => misses

end Turn

/-- What is done about a line once references to the history are replaced. -/
def Turn.ofResolved (c : Config) : Resolved → Turn
  | .line line => if c.isHelp line then helps else dispatches line
  | .listing => lists
  | .missing => misses

/-- What a session with a history does about a text. -/
def turn (c : Config) (history : Log String) (text : String) : Turn :=
  let line := Text.trim text
  if line = "" then .ignores
  else if c.isExit line then .exits
  else .ofResolved c (History.resolve c history line)

/-- The history after a turn. -/
def Turn.remember (history : Log String) (t : Turn) : Log String :=
  t.line?.elim history history.add

theorem Turn.toList_remember (history : Log String) (t : Turn) :
    (t.remember history).toList = history.toList ++ t.line?.toList := by
  rw [Turn.remember]
  cases t.line? with
  | none => simp
  | some line => exact history.toList_add line

/-- What a session with a history does about one text after the other. -/
def turns (c : Config) (history : Log String) : List String → List Turn
  | [] => []
  | text :: rest =>
      turn c history text :: turns c ((turn c history text).remember history) rest

/-- What becomes of a line that is neither blank nor an exit command. -/
structure Resolves (c : Config) (history : List String) (line : String) (t : Turn) : Prop where
  /-- The repeat command stands for the last entry. -/
  repeats : line = c.repeatCommand → t = .recalling history.getLast?
  /-- The history command on its own has the history shown. -/
  lists : line ≠ c.repeatCommand → c.historyCommand ≠ "" →
    ∀ rest, line = c.historyCommand ++ rest → Text.trim rest = "" → t = .lists
  /-- Before a number it stands for that entry, counted from one. -/
  numbers : line ≠ c.repeatCommand → c.historyCommand ≠ "" →
    ∀ rest, line = c.historyCommand ++ rest → ∀ n, Decimal (Text.trim rest) n →
      t = .recalling (if n = 0 then none else history[n - 1]?)
  /-- Before anything else it stands for nothing. -/
  misses : line ≠ c.repeatCommand → c.historyCommand ≠ "" →
    ∀ rest, line = c.historyCommand ++ rest → Text.trim rest ≠ "" →
      (∀ n, ¬ Decimal (Text.trim rest) n) → t = .misses
  /-- Any other line stands for itself. -/
  plain : line ≠ c.repeatCommand →
    (c.historyCommand ≠ "" → ∀ rest, line ≠ c.historyCommand ++ rest) →
      t = if c.isHelp line then .helps else .dispatches line

theorem foldl_digits (digits : List Nat) :
    digits.foldl (fun n d => 10 * n + d) 0 = Nat.ofDigits 10 digits.reverse := by
  induction digits using List.reverseRecOn with
  | nil => rfl
  | append_singleton digits d ih =>
      rw [List.foldl_append, List.reverse_append, ih]
      simp [Nat.ofDigits_cons, Nat.add_comm]

/-- The value of digits, read from the left. -/
theorem number?_of_digits {cs digits : List Char}
    (hcs : cs = '+' :: digits ∨ cs = digits ∧ digits.head? ≠ some '+') :
    History.number? cs = if digits ≠ [] ∧ digits.all Char.isDigit then
      some (Nat.ofDigits 10 (digits.reverse.map fun d => d.toNat - '0'.toNat)) else none := by
  have hvalue : digits.foldl (fun n c => 10 * n + (c.toNat - '0'.toNat)) 0 =
      Nat.ofDigits 10 (digits.reverse.map fun d => d.toNat - '0'.toNat) := by
    rw [List.map_reverse, ← foldl_digits, List.foldl_map]
  rw [← hvalue]
  rcases hcs with rfl | ⟨rfl, hplus⟩
  · rfl
  · unfold History.number?
    split
    next rest => exact absurd rfl hplus
    next => rfl

theorem number?_eq_some_iff {text : String} {n : Nat} :
    History.number? text.toList = some n ↔ Decimal text n := by
  have hread {digits : List Char}
      (hcs : text.toList = '+' :: digits ∨ text.toList = digits ∧ digits.head? ≠ some '+') :
      History.number? text.toList = some n ↔ digits ≠ [] ∧ (∀ d ∈ digits, d.isDigit = true) ∧
        n = Nat.ofDigits 10 (digits.reverse.map fun d => d.toNat - '0'.toNat) := by
    rw [number?_of_digits hcs, Option.ite_none_right_eq_some, List.all_eq_true, and_assoc,
      Option.some_inj, eq_comm (a := n)]
  constructor
  · intro h
    by_cases hplus : text.toList.head? = some '+'
    · obtain ⟨digits, hdigits⟩ := List.head?_eq_some_iff.mp hplus
      exact ⟨digits, Or.inr hdigits, (hread (Or.inl hdigits)).mp h⟩
    · exact ⟨text.toList, Or.inl rfl, (hread (Or.inr ⟨rfl, hplus⟩)).mp h⟩
  · rintro ⟨digits, hdigits | hdigits, hne, hall, rfl⟩
    · refine (hread (Or.inr ⟨hdigits, fun hplus => ?_⟩)).mpr ⟨hne, hall, rfl⟩
      have hdigit := hall '+' (List.mem_of_head? hplus)
      exact absurd hdigit (by decide)
    · exact (hread (Or.inl hdigits)).mpr ⟨hne, hall, rfl⟩

section

variable {c : Config} {history : Log String} {line : String}

theorem reference?_eq_some_iff {rest : List Char} :
    History.reference? c.historyCommand.toList line.toList = some rest ↔
      c.historyCommand ≠ "" ∧ line = c.historyCommand ++ String.ofList rest := by
  have hnil : c.historyCommand.toList ≠ [] ↔ c.historyCommand ≠ "" := by
    rw [ne_eq, String.toList_eq_nil_iff]
  rw [History.reference?, Option.ite_none_right_eq_some, hnil, and_assoc, Option.some_inj,
    List.isPrefixOf_iff_prefix]
  refine and_congr_right fun _ => ⟨?_, ?_⟩
  · rintro ⟨⟨rest', hrest⟩, rfl⟩
    apply String.toList_injective
    rw [← hrest, List.drop_left, String.toList_append, String.toList_ofList]
  · rintro rfl
    rw [String.toList_append, String.toList_ofList]
    exact ⟨List.prefix_append _ _, List.drop_left⟩

theorem resolve_repeat (h : line = c.repeatCommand) :
    History.resolve c history line = history.toList.getLast?.elim .missing .line := by
  rw [History.resolve, if_pos h, history.newest?_eq]
  cases history.toList.getLast? <;> rfl

theorem resolve_reference (hline : line ≠ c.repeatCommand) {rest : String}
    (hcommand : c.historyCommand ≠ "") (hrest : line = c.historyCommand ++ rest) :
    History.resolve c history line =
      if Text.trim rest = "" then .listing
      else ((History.number? (Text.trim rest).toList).bind
        (History.nth? history.toList)).elim .missing .line := by
  have href : History.reference? c.historyCommand.toList line.toList = some rest.toList :=
    reference?_eq_some_iff.mpr ⟨hcommand, by rw [String.ofList_toList]; exact hrest⟩
  rw [History.resolve, if_neg hline, href]
  dsimp only
  rw [String.ofList_toList]
  split
  · rfl
  · cases (History.number? (Text.trim rest).toList).bind (History.nth? history.toList) <;> rfl

theorem resolve_plain (hline : line ≠ c.repeatCommand)
    (hplain : c.historyCommand ≠ "" → ∀ rest, line ≠ c.historyCommand ++ rest) :
    History.resolve c history line = .line line := by
  have href : History.reference? c.historyCommand.toList line.toList = none := by
    by_contra hsome
    obtain ⟨rest, hrest⟩ := Option.ne_none_iff_exists'.mp hsome
    obtain ⟨hcommand, hrest⟩ := reference?_eq_some_iff.mp hrest
    exact hplain hcommand _ hrest
  rw [History.resolve, if_neg hline, href]

/-- What a line comes to is an entry, or the line itself, which then stands for no other. -/
theorem mem_or_eq_of_resolve {found : String} (h : History.resolve c history line = .line found) :
    found ∈ history.toList ∨ found = line ∧ line ≠ c.repeatCommand ∧
      (c.historyCommand ≠ "" → ¬ c.historyCommand.toList <+: line.toList) := by
  by_cases hrepeat : line = c.repeatCommand
  · rw [resolve_repeat hrepeat] at h
    cases hlast : history.toList.getLast? with
    | none => rw [hlast] at h; cases h
    | some entry =>
        rw [hlast] at h
        cases h
        exact Or.inl (List.mem_of_getLast? hlast)
  by_cases hreference : c.historyCommand ≠ "" ∧ c.historyCommand.toList <+: line.toList
  · obtain ⟨hcommand, rest, hrest⟩ := hreference
    have hline : line = c.historyCommand ++ String.ofList rest := by
      apply String.toList_injective
      rw [String.toList_append, String.toList_ofList, hrest]
    rw [resolve_reference hrepeat hcommand hline] at h
    split at h
    · cases h
    cases hentry : (History.number? (Text.trim (String.ofList rest)).toList).bind
        (History.nth? history.toList) with
    | none => rw [hentry] at h; cases h
    | some entry =>
        rw [hentry] at h
        cases h
        obtain ⟨n, -, hnth⟩ := Option.bind_eq_some_iff.mp hentry
        obtain ⟨-, hget⟩ := Option.ite_none_left_eq_some.mp hnth
        exact Or.inl (List.mem_of_getElem? hget)
  · have hplain : c.historyCommand ≠ "" → ¬ c.historyCommand.toList <+: line.toList :=
      fun hcommand hprefix => hreference ⟨hcommand, hprefix⟩
    rw [resolve_plain hrepeat fun hcommand rest hrest => hplain hcommand
      ⟨rest.toList, by rw [hrest, String.toList_append]⟩] at h
    cases h
    exact Or.inr ⟨rfl, hrepeat, hplain⟩

/-- An entry stands for itself. -/
theorem IsEntry.resolve (hentry : IsEntry c line) :
    History.resolve c history line = .line line := by
  refine resolve_plain hentry.ne_repeat fun hcommand rest hrest => ?_
  refine hentry.no_reference hcommand ?_
  rw [hrest, String.toList_append]
  exact List.prefix_append _ _

theorem Turn.ofResolved_elim {found : Option String}
    (hhelp : ∀ entry ∈ found, c.isHelp entry = false) :
    Turn.ofResolved c (found.elim .missing .line) = .recalling found := by
  cases found with
  | none => rfl
  | some entry => exact if_neg (by rw [hhelp entry rfl]; exact Bool.false_ne_true)

theorem isExit_of_exits {text : String} (h : turn c history text = .exits) :
    c.isExit (Text.trim text) = true := by
  unfold turn at h
  dsimp only at h
  split_ifs at h with hempty hexit
  · exact hexit
  · cases hresolved : History.resolve c history (Text.trim text) with
    | line found =>
        rw [hresolved, Turn.ofResolved] at h
        split_ifs at h
    | listing => rw [hresolved] at h; cases h
    | missing => rw [hresolved] at h; cases h

section

variable {text : String} (hentries : ∀ entry ∈ history.toList, IsEntry c entry)

include hentries

/-- Only lines are dispatched that do not stand for others. -/
theorem IsEntry.of_dispatches (h : turn c history text = .dispatches line) : IsEntry c line := by
  unfold turn at h
  dsimp only at h
  split_ifs at h with hempty hexit
  cases hresolved : History.resolve c history (Text.trim text) with
  | listing => rw [hresolved] at h; cases h
  | missing => rw [hresolved] at h; cases h
  | line found =>
      rw [hresolved, Turn.ofResolved] at h
      split_ifs at h with hhelp
      cases h
      -- A reference gives an entry, which is one by assumption; any other line is as it was typed.
      rcases mem_or_eq_of_resolve hresolved with hmem | ⟨rfl, hrepeat, hreference⟩
      · exact hentries _ hmem
      · exact ⟨trim_trim text, hempty, Bool.eq_false_iff.mpr hexit, Bool.eq_false_iff.mpr hhelp,
          hrepeat, hreference⟩

theorem isEntry_of_mem_remember :
    ∀ entry ∈ ((turn c history text).remember history).toList, IsEntry c entry := by
  intro entry hentry
  rw [Turn.toList_remember] at hentry
  rcases List.mem_append.mp hentry with hentry | hentry
  · exact hentries entry hentry
  · cases hturn : turn c history text with
    | dispatches line =>
        rw [hturn] at hentry
        cases List.mem_singleton.mp hentry
        exact IsEntry.of_dispatches hentries hturn
    | _ =>
        rw [hturn] at hentry
        cases hentry

theorem resolves_turn (hempty : Text.trim text ≠ "") (hexit : c.isExit (Text.trim text) = false) :
    Resolves c history.toList (Text.trim text) (turn c history text) := by
  have hturn : turn c history text =
      .ofResolved c (History.resolve c history (Text.trim text)) := by
    rw [turn, if_neg hempty, if_neg (Bool.eq_false_iff.mp hexit)]
  rw [hturn]
  refine ⟨fun hrepeat => ?_, fun hline hcommand rest hrest hblank => ?_,
    fun hline hcommand rest hrest n hn => ?_, fun hline hcommand rest hrest hne hnone => ?_,
    fun hline hplain => ?_⟩
  · rw [resolve_repeat hrepeat]
    exact Turn.ofResolved_elim fun entry hentry =>
      (hentries entry (List.mem_of_getLast? hentry)).not_help
  · rw [resolve_reference hline hcommand hrest, if_pos hblank]
    rfl
  · have hnumber := number?_eq_some_iff.mpr hn
    have hblank : Text.trim rest ≠ "" := by
      rintro hblank
      rw [hblank] at hnumber
      cases hnumber
    rw [resolve_reference hline hcommand hrest, if_neg hblank, hnumber]
    refine Turn.ofResolved_elim fun entry hentry => ?_
    obtain ⟨-, hget⟩ := Option.ite_none_left_eq_some.mp hentry
    exact (hentries entry (List.mem_of_getElem? hget)).not_help
  · have hnumber : History.number? (Text.trim rest).toList = none := by
      by_contra hsome
      obtain ⟨n, hn⟩ := Option.ne_none_iff_exists'.mp hsome
      exact hnone n (number?_eq_some_iff.mp hn)
    rw [resolve_reference hline hcommand hrest, if_neg hne, hnumber]
    rfl
  · rw [resolve_plain hline hplain]
    rfl

end

end

/-! Work that succeeds and leaves the history alone. -/

variable {ρ : Type}

/-- Work that leaves the history alone. -/
abbrev SparesHistory (Good : ρ → Prop) : ∀ α : Type, Course ρ α → Prop :=
  Spares Good State.history fun _ _ => True

/-- Work that succeeds too. -/
def Smooth (Good : ρ → Prop) (α : Type) (x : Work (Course ρ) α) : Prop :=
  ∀ s, Good s.world → (∃ a, (x.run s).result = .ok a) ∧ Good (x.run s).state.world ∧
    (x.run s).state.state.history = s.state.history

section

variable {Good : ρ → Prop}

theorem smooth_chains : Chains (Smooth Good) where
  pure a _ hs := ⟨⟨a, rfl⟩, hs, rfl⟩
  bind hx hf s hs := by
    obtain ⟨⟨a, hresult⟩, hgood, hhistory⟩ := hx s hs
    rw [ExceptT.run_bind, Recorded.bind_run, hresult, ← hhistory]
    exact hf a _ hgood

theorem SparesHistory.smooth_bind {α β : Type} {x : Course ρ α}
    {f : α → Course ρ (Except Error β)} (hx : SparesHistory Good α x)
    (hf : ∀ a, Smooth Good β (ExceptT.mk (f a))) : Smooth Good β (ExceptT.mk (x >>= f)) := by
  intro s hs
  obtain ⟨hgood, hhistory, -⟩ := hx s hs
  rw [ExceptT.run_mk, Recorded.bind_run, ← show (x s).state.state.history = s.state.history
    from hhistory]
  exact hf _ _ hgood

theorem SparesHistory.smooth {α : Type} {x : Course ρ α} (hx : SparesHistory Good α x) :
    Smooth Good α (liftM x) :=
  hx.smooth_bind fun a => smooth_chains.pure a

end

section

variable {base : Host (Around ρ)} {Good : ρ → Prop} {allowed : Action → Prop}
  (hstable : base.Stable allowed Good)

include hstable

theorem bears_sparesHistory :
    base.seated.Bears allowed (fun _ => True) (SparesHistory Good) :=
  (sits_seated base).bears hstable (fun _ _ _ _ _ => trivial) fun _ _ => rfl

/-- Commands leave the history alone if they submit nothing and type no end of a line. -/
theorem bears_inner (hsubmits : ∀ line, ¬ allowed (.submit line))
    (htypes : ∀ bytes, allowed (.typeIn bytes) → ∀ b ∈ bytes, isLineEnd b = false)
    (depth : Nat) : (inner base.seated depth).Bears allowed (SparesHistory Good) := by
  have hok := bears_sparesHistory hstable
  refine hok.inner (fun _ _ line hallowed => absurd hallowed (hsubmits line))
    (fun i _ bytes hallowed => hok.forM fun b hb => ?_) depth
  have hedit : SparesHistory Good Echo (base.seated.change fun s =>
      (s.shown base.config b, (s.edit base.config b).1)) := (sits_seated base).change fun s => by
    simp only [State.edit]
    split_ifs <;> rfl
  rw [pressKey_eq, if_neg (by rw [htypes bytes hallowed b hb]; exact Bool.false_ne_true)]
  refine hok.seq (hok.lift hedit) fun echo => ?_
  split
  · exact hok.tends.send _
  · exact hok.pure _

variable (hwrites : ∀ bytes s w, Good w → (((base.channel.write bytes).run s).run w).1 = .ok ())

include hwrites

theorem smooth_tends : base.seated.Tends allowed (fun _ => True) (Smooth Good) where
  toChains := smooth_chains
  send bytes s hs := by
    obtain ⟨hgood, hhistory, -⟩ := (bears_sparesHistory hstable).tends.send bytes s hs
    have hwrite : (base.seated.channel.write bytes s).result = .ok () :=
      hwrites bytes s.state s.world hs
    refine ⟨⟨(), ?_⟩, hgood, hhistory⟩
    rw [sendBytes, onChannel, ExceptT.run_mk, Recorded.bind_run, hwrite]
    rfl
  isOpen := ((bears_sparesHistory hstable).ask .isOpen trivial).smooth
  count metric := ((bears_sparesHistory hstable).ask (.count metric) trivial).smooth
  state hf s hs := hf s.state trivial s hs
  registry hf s hs := by
    obtain ⟨hgood, hhistory, -⟩ := (bears_sparesHistory hstable).ask .registry trivial s hs
    exact hf _ (hstable.registry s.state s.world hs) _ hgood

/-- A command succeeds, however its handler ends. -/
theorem smooth_runCommand {i : Inner (Course ρ)} (hi : i.Bears allowed (SparesHistory Good))
    {found : Match Handler} (honly : found.entry.handler.Only allowed) (a : Arguments) :
    Smooth Good _ (runCommand base.seated i found a) := by
  have hok := bears_sparesHistory hstable
  have hfit := smooth_tends hstable hwrites
  have hcount (metric : Metric) : SparesHistory Good _ (base.seated.count metric) :=
    hok.ask (.count metric) trivial
  have hstage : ∀ stage, SparesHistory Good _ (base.seated.setStage stage) :=
    (sits_seated base).setStage_spares (fun _ _ => rfl) fun _ _ _ _ => trivial
  have hflush (a : Arguments) : Smooth Good Unit
      (ExceptT.mk do return (← flush base.seated a).1) := by
    unfold flush
    split
    · rw [pure_bind]
      exact hfit.pure ()
    · simp only [bind_assoc, pure_bind, bind_pure]
      exact hfit.sendText _
  have hattend : Smooth Good _ (ExceptT.mk (attend base.seated i found a)) := by
    refine (hok.perform hi honly _).smooth_bind fun done => ?_
    obtain ⟨outcome, a⟩ := done
    cases outcome with
    | succeeded => exact hflush a
    | failed e => exact (hcount .failed).smooth_bind fun _ => hflush _
    | crashed => exact (hcount .failed).smooth_bind fun _ => hflush _
  change Smooth Good _ (ExceptT.mk (runCommand base.seated i found a).run)
  rw [runCommand_run]
  refine (hcount .dispatched).smooth_bind fun _ => (hstage _).smooth_bind fun _ s hs => ?_
  exact hattend s hs

/-! Whole turns. -/

/-- What a turn is. -/
def takeTurn {m : Type → Type u} [Monad m] (h : Host m) (i : Inner m) (history : List String) :
    Turn → Work m Unit
  | .ignores => return ()
  | .exits => (stop h : m Unit)
  | .helps => sendHelp h
  | .lists => sendText h (History.listing history)
  | .misses => sendLine h h.config.noHistoryError
  | .dispatches line => do
      dispatch h i line
      (h.update fun s => { s with history := s.history.add line } : m Unit)

/-- Submit one text after the other. -/
def submitAll {m : Type → Type u} [Monad m] (h : Host m) :
    List String → m (List (Except Error Unit))
  | [] => return []
  | text :: rest => do
      let result ← (submit h text).run
      let results ← submitAll h rest
      return result :: results

omit hstable hwrites in
theorem look_run {α : Type} (f : State → Work (Course ρ) α) (s : Sitting ρ) :
    ((liftM base.seated.state : Work (Course ρ) State) >>= f).run s = (f s.state).run s := rfl

omit hstable hwrites in
theorem submitLine_eq_takeTurn (i : Inner (Course ρ)) (text : String) (s : Sitting ρ) :
    (submitLine base.seated i text).run s =
      (takeTurn base.seated i s.state.history.toList
        (turn base.config s.state.history text)).run s := by
  rw [← seated_config base, submitLine, turn]
  dsimp only
  split_ifs with hempty hexit
  · rfl
  · rfl
  · rw [look_run]
    cases History.resolve base.seated.config s.state.history (Text.trim text) with
    | line line =>
        rw [Turn.ofResolved]
        dsimp only
        rw [carryOut]
        split <;> rfl
    | listing => rfl
    | missing => rfl

/-- A text that does not exit succeeds, and is remembered just if it is dispatched. -/
theorem submitLine_remembers {i : Inner (Course ρ)} (hi : i.Bears allowed (SparesHistory Good))
    {text : String} (hexit : base.config.isExit (Text.trim text) = false) {s : Sitting ρ}
    (hs : Good s.world) :
    let r := (submitLine base.seated i text).run s
    r.result = .ok () ∧ Good r.state.world ∧
      r.state.state.history = (turn base.config s.state.history text).remember s.state.history := by
  have hfit := smooth_tends hstable hwrites
  rw [submitLine_eq_takeTurn]
  have hspared {t : Turn} (hline : t.line? = none)
      (hsmooth : Smooth Good _ (takeTurn base.seated i s.state.history.toList t)) :
      let r := (takeTurn base.seated i s.state.history.toList t).run s
      r.result = .ok () ∧ Good r.state.world ∧
        r.state.state.history = t.remember s.state.history := by
    obtain ⟨⟨_, hresult⟩, hgood, hhistory⟩ := hsmooth s hs
    exact ⟨hresult, hgood, hhistory.trans (by rw [Turn.remember, hline]; rfl)⟩
  cases hturn : turn base.config s.state.history text with
  | ignores => exact hspared rfl (hfit.pure ())
  | exits =>
      rw [isExit_of_exits hturn] at hexit
      cases hexit
  | helps => exact hspared rfl hfit.sendHelp
  | lists => exact hspared rfl (hfit.sendText _)
  | misses => exact hspared rfl (hfit.sendText _)
  | dispatches line =>
      obtain ⟨⟨_, hresult⟩, hgood, hhistory⟩ :=
        hfit.dispatch (fun found honly a => smooth_runCommand hstable hwrites hi honly a) line s hs
      rw [takeTurn, ExceptT.run_bind, Recorded.bind_run, hresult]
      refine ⟨rfl, hgood, ?_⟩
      rw [← hhistory]
      rfl

variable (hsubmits : ∀ line, ¬ allowed (.submit line))
  (htypes : ∀ bytes, allowed (.typeIn bytes) → ∀ b ∈ bytes, isLineEnd b = false)

include hsubmits htypes

theorem submit_remembers {text : String} (hexit : base.config.isExit (Text.trim text) = false)
    {s : Sitting ρ} (hs : Good s.world) :
    let r := (submit base.seated text).run s
    r.result = .ok () ∧ Good r.state.world ∧
      r.state.state.history = (turn base.config s.state.history text).remember s.state.history :=
  submitLine_remembers hstable hwrites (bears_inner hstable hsubmits htypes _) hexit hs

theorem submitAll_remembers {texts : List String}
    (hexit : ∀ text ∈ texts, base.config.isExit (Text.trim text) = false) {s : Sitting ρ}
    (hs : Good s.world) (hentries : ∀ entry ∈ s.state.history.toList, IsEntry base.config entry) :
    let r := submitAll base.seated texts s
    (r.result = texts.map fun _ => .ok ()) ∧ Good r.state.world ∧
      r.state.state.history.toList = s.state.history.toList ++
        (turns base.config s.state.history texts).filterMap Turn.line? ∧
      ∀ entry ∈ r.state.state.history.toList, IsEntry base.config entry := by
  induction texts generalizing s with
  | nil => exact ⟨rfl, hs, (List.append_nil _).symm, hentries⟩
  | cons text rest ih =>
      obtain ⟨hexit, hrest⟩ := List.forall_mem_cons.mp hexit
      obtain ⟨hresult, hgood, hhistory⟩ :=
        submit_remembers hstable hwrites hsubmits htypes hexit hs
      have hnext : ∀ entry ∈ ((submit base.seated text).run s).state.state.history.toList,
          IsEntry base.config entry := by
        rw [hhistory]
        exact isEntry_of_mem_remember hentries
      obtain ⟨hresults, hgood', hhistory', hentries'⟩ := ih hrest hgood hnext
      intro r
      have hr : r.result = ((submit base.seated text).run s).result ::
          (submitAll base.seated rest ((submit base.seated text).run s).state).result := rfl
      refine ⟨?_, hgood', ?_, hentries'⟩
      · rw [hr, hresult, hresults]
        rfl
      · refine hhistory'.trans ?_
        rw [hhistory, Turn.toList_remember, List.append_assoc, turns, List.filterMap_cons]
        cases (turn base.config s.state.history text).line? <;> rfl

end

/-- The history of a session whose channel takes everything, and whose commands submit nothing
themselves, is the list of lines that were dispatched, in order.  No entry stands for another
line, nor does it exit or show help.  A further line adds itself or the entry that it stands
for, if it is dispatched, and otherwise nothing. -/
theorem history_exact (base : Host (Around ρ)) {allowed : Action → Prop} {Good : ρ → Prop}
    (hstable : base.Stable allowed Good)
    (hwrites : ∀ bytes s w, Good w → (((base.channel.write bytes).run s).run w).1 = .ok ())
    (hsubmits : ∀ line, ¬ allowed (.submit line))
    (htypes : ∀ bytes, allowed (.typeIn bytes) → ∀ b ∈ bytes, isLineEnd b = false)
    {w : ρ} (hw : Good w) (texts : List String)
    (hexit : ∀ text ∈ texts, base.config.isExit (Text.trim text) = false) :
    let c := base.config
    let run := submitAll base.seated texts ⟨.initial c, w⟩
    let history := run.state.state.history
    (run.result = texts.map fun _ => .ok ()) ∧
      history.toList = (turns c .empty texts).filterMap Turn.line? ∧
      (∀ entry ∈ history.toList,
        IsEntry c entry ∧ History.resolve c history entry = .line entry) ∧
      (∀ text, c.isExit (Text.trim text) = false →
        let next := (submit base.seated text).run run.state
        next.result = .ok () ∧
          next.state.state.history.toList =
            history.toList ++ (turn c history text).line?.toList ∧
          (Text.trim text ≠ "" →
            Resolves c history.toList (Text.trim text) (turn c history text))) ∧
      ∀ text (s : Sitting ρ), (submit base.seated text).run s =
        (takeTurn base.seated base.seated.itself s.state.history.toList
          (turn c s.state.history text)).run s := by
  intro c run history
  have hnone : ∀ entry ∈ (State.initial c).history.toList, IsEntry c entry := fun _ hentry => by
    cases hentry
  obtain ⟨hresult, hgood, hhistory, hentries⟩ :=
    submitAll_remembers hstable hwrites hsubmits htypes hexit (s := ⟨.initial c, w⟩) hw hnone
  refine ⟨hresult, hhistory, fun entry hentry => ⟨hentries entry hentry,
    (hentries entry hentry).resolve⟩, fun text htext => ?_,
    fun text s => submitLine_eq_takeTurn _ text s⟩
  obtain ⟨hnext, -, hremember⟩ := submit_remembers hstable hwrites hsubmits htypes htext hgood
  refine ⟨hnext, ?_, fun hempty => resolves_turn hentries hempty htext⟩
  exact (congrArg Log.toList hremember).trans (Turn.toList_remember _ _)

/-! A history at a desk. -/

/-- A command that writes. -/
def writer : Entry Handler :=
  ⟨.perform (.write "done") fun _ => .idle, "", ""⟩

/-- A command that breaks down. -/
def breaker : Entry Handler :=
  ⟨.finish .crashed, "", ""⟩

/-- A desk with both commands. -/
def recorder : Desk :=
  .initial ⟨1⟩ {} {} none
    ((({} : Registry Handler).register "show" writer).1.register "boom" breaker).1

/-- Only to write is allowed. -/
def Action.isWriting : Action → Bool
  | write _ => true
  | _ => false

/-- Commands of every kind, and references to them. -/
def recorded : List String :=
  ["  show ", "boom", "nope", "!!", "! +1 ", "!", "help", "!9", "", "!-1"]

theorem history_exact_recorder :
    (submitAll recorder.around.seated recorded
        ⟨.initial recorder.around.config, recorder⟩).state.state.history.toList =
      ["show", "boom", "nope", "nope", "show"] := by
  have hstable := Desk.stable_around (d := recorder) rfl fun action => action.isWriting = true
  have honly : recorder.registry.Only fun action => action.isWriting = true := by
    have hempty : ({} : Registry Handler).Only fun action => action.isWriting = true :=
      fun _ hmem => (List.not_mem_nil hmem).elim
    have hwriter : writer.handler.Only fun action => action.isWriting = true :=
      ⟨rfl, fun _ => trivial⟩
    have hbreaker : breaker.handler.Only fun action => action.isWriting = true := trivial
    exact (hempty.register "show" hwriter).register "boom" hbreaker
  have hholds : recorder.Holds fun action => action.isWriting = true :=
    ⟨honly, fun _ => ⟨rfl, rfl⟩⟩
  have hwrites : ∀ bytes s w, (Desk.Holds (fun action => action.isWriting = true) w) →
      (((recorder.around.channel.write bytes).run s).run w).1 = .ok () := fun bytes s w hw =>
    ((Desk.accepts_around (d := recorder) rfl).write bytes s w
      (hw.2 (by simp [Action.isWriting]))).1
  have hexact := history_exact recorder.around hstable hwrites (by simp [Action.isWriting])
    (by simp [Action.isWriting]) hholds recorded (by decide +kernel)
  rw [hexact.2.1]
  decide +kernel

end RemoteConsole.Session
