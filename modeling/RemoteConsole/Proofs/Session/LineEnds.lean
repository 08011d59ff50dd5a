/-
Line ends.  A line may end in a carriage return, in a line feed, or in both, in either order.
A session makes the same of the lines that are typed, however each of them ends, unless a
single byte ends a line and an empty line follows it.
-/
import Mathlib.Data.List.Chain
import RemoteConsole.Proofs.Session.Secrecy
import RemoteConsole.Proofs.Session.Surroundings

namespace RemoteConsole.Session

variable {ρ : Type}

/-- How a line may end. -/
inductive LineEnd where
  | cr
  | lf
  | crLf
  | lfCr
deriving DecidableEq, Repr

namespace LineEnd

def first : LineEnd → UInt8
  | cr | crLf => 13
  | lf | lfCr => 10

/-- The byte after the first, if there is one. -/
def second? : LineEnd → Option UInt8
  | cr | lf => none
  | crLf => some 10
  | lfCr => some 13

def bytes (e : LineEnd) : List UInt8 :=
  e.first :: e.second?.toList

theorem isLineEnd_first (e : LineEnd) : isLineEnd e.first = true := by
  cases e <;> rfl

theorem isLineEnd_of_second? {e : LineEnd} {b : UInt8} (h : e.second? = some b) :
    isLineEnd b = true := by
  cases e <;> cases h <;> rfl

end LineEnd

/-- A line and how it ends. -/
structure EndedLine where
  text : List UInt8
  inLine : ∀ b ∈ text, isLineEnd b = false
  ending : LineEnd

namespace EndedLine

def bytes (l : EndedLine) : List UInt8 :=
  l.text ++ l.ending.bytes

/-- The same line, ended in the usual way. -/
def usual (l : EndedLine) : EndedLine :=
  { l with ending := .crLf }

end EndedLine

/-- No line that a single byte ends is followed by an empty one, of whose end the first byte
would count for the end before. -/
def Distinct (lines : List EndedLine) : Prop :=
  lines.IsChain fun line next => line.ending.second? = none → next.text ≠ []

instance (lines : List EndedLine) : Decidable (Distinct lines) :=
  inferInstanceAs (Decidable (lines.IsChain _))

/-! What comes of typing. -/

/-- What comes of going on unless there was a failure. -/
def Ran.andThen {S D : Type} (r : Ran S D (Except Error Unit))
    (next : S → Ran S D (Except Error Unit)) : Ran S D (Except Error Unit) :=
  match r.result with
  | .ok _ => { next r.state with deeds := r.deeds ++ (next r.state).deeds }
  | .error _ => r

/-- What comes of typing bytes. -/
def typed (base : Host (Around ρ)) (dogged : Bool) (bytes : List UInt8) (s : Sitting ρ) :
    Ran (Sitting ρ) Deed (Except Error Unit) :=
  (forM bytes (take base.seated dogged)).run s

theorem typed_append (base : Host (Around ρ)) (dogged : Bool) (bytes more : List UInt8)
    (s : Sitting ρ) :
    typed base dogged (bytes ++ more) s =
      (typed base dogged bytes s).andThen (typed base dogged more) := by
  rw [typed, List.forM_append, ExceptT.run_bind, Recorded.bind_run, Ran.andThen, typed]
  cases hresult : ((forM bytes (take base.seated dogged)).run s).result with
  | ok _ => rfl
  | error e =>
      dsimp only
      rw [Recorded.pure_run, List.append_nil, ← hresult]

theorem typed_singleton (base : Host (Around ρ)) (dogged : Bool) (b : UInt8) (s : Sitting ρ) :
    typed base dogged [b] s = (take base.seated dogged b).run s := by
  rw [typed, List.forM_cons, List.forM_nil, bind_pure_unit]

/-- A session in its world, with no line just ended. -/
def Sitting.opened (s : Sitting ρ) : Sitting ρ :=
  { s with state := { s.state with lineEnded := false } }

theorem Sitting.opened_of_not_lineEnded {s : Sitting ρ} (h : s.state.lineEnded = false) :
    s.opened = s := by
  rw [Sitting.opened, ← h]

/-- Two runs came to the same, but for whether a line has just ended. -/
structure Ran.Even {α : Type} (r r' : Ran (Sitting ρ) Deed α) : Prop where
  result : r.result = r'.result
  deeds : r.deeds = r'.deeds
  state : r.state.opened = r'.state.opened

theorem Ran.Even.refl {α : Type} (r : Ran (Sitting ρ) Deed α) : r.Even r :=
  ⟨rfl, rfl, rfl⟩

theorem Ran.Even.andThen {r r' : Ran (Sitting ρ) Deed (Except Error Unit)}
    {next next' : Sitting ρ → Ran (Sitting ρ) Deed (Except Error Unit)} (h : r.Even r')
    (hnext : r.result = .ok () → (next r.state).Even (next' r'.state)) :
    (r.andThen next).Even (r'.andThen next') := by
  rw [Ran.andThen, Ran.andThen, ← h.result]
  cases hresult : r.result with
  | ok _ =>
      obtain ⟨hres, hdeeds, hstate⟩ := hnext hresult
      exact ⟨hres, by dsimp only; rw [h.deeds, hdeeds], hstate⟩
  | error e => exact h

/-! Bytes that end no line. -/

theorem State.lineEnded_edit (s : State) (c : Config) (b : UInt8) :
    (s.edit c b).1.lineEnded = false := by
  simp only [State.edit]
  split_ifs <;> rfl

/-- Whether a line has just ended makes no difference to a byte that ends none. -/
theorem take_opened (base : Host (Around ρ)) (dogged : Bool) {b : UInt8}
    (hb : isLineEnd b = false) (s : Sitting ρ) :
    (take base.seated dogged b).run s = (take base.seated dogged b).run s.opened := by
  have hkey : ∀ t : State, t.key base.config b = ((t.edit base.config b).1, none) := fun t =>
    if_neg (by rw [hb]; exact Bool.false_ne_true)
  have hpress : (press base.seated b).run s = (press base.seated b).run s.opened := by
    rw [press, pressKey_run, pressKey_run, hkey, hkey]
    rfl
  rw [take_run, take_run, hpress]

theorem typed_opened (base : Host (Around ρ)) (dogged : Bool) {bytes : List UInt8}
    (hne : bytes ≠ []) (hline : ∀ b ∈ bytes, isLineEnd b = false) (s : Sitting ρ) :
    typed base dogged bytes s = typed base dogged bytes s.opened := by
  cases bytes with
  | nil => exact absurd rfl hne
  | cons b rest =>
      have hb : isLineEnd b = false := hline b List.mem_cons_self
      have hfirst : ∀ t, typed base dogged (b :: rest) t =
          ((take base.seated dogged b).run t).andThen (typed base dogged rest) := fun t => by
        rw [← typed_singleton, ← typed_append, List.singleton_append]
      rw [hfirst, hfirst, take_opened base dogged hb]

/-! Commands that type nothing leave it alone whether a line has just ended. -/

/-- Whether an action types. -/
def Action.isTyping : Action → Bool
  | typeIn _ => true
  | _ => false

section

variable {base : Host (Around ρ)} {Good : ρ → Prop}
  (hstable : base.Stable (fun action => action.isTyping = false) Good)

/-- Work that leaves it alone whether a line has just ended. -/
abbrev SparesEnd (Good : ρ → Prop) : ∀ α : Type, Course ρ α → Prop :=
  Spares Good State.lineEnded fun _ _ => True

include hstable

theorem bears_sparesEnd :
    base.seated.Bears (fun action => action.isTyping = false) (fun _ => True)
      (SparesEnd Good) :=
  (sits_seated base).bears hstable (fun _ _ _ _ _ => trivial) fun _ _ => rfl

theorem sparesEnd_takeLine (line : String) :
    SparesEnd Good _ (takeLine base.seated base.seated.itself line).run := by
  have hok := bears_sparesEnd hstable
  have hupdate {f : State → State} (hf : ∀ s, (f s).lineEnded = s.lineEnded) :
      SparesEnd Good _ (base.seated.update f) := (sits_seated base).update hf
  have hstage : ∀ stage, SparesEnd Good _ (base.seated.setStage stage) :=
    (sits_seated base).setStage_spares (fun _ _ => rfl) fun _ _ _ _ => trivial
  have hgreets : base.seated.Greets fun _ x => SparesEnd Good _ x.run :=
    hok.greets (fun _ => hupdate fun _ => rfl)
      ((sits_seated base).validate_spares hstable fun _ _ _ _ _ => trivial)
      fun stage _ => hstage stage
  have hsubmit (i : Inner (Course ρ))
      (hi : i.Bears (fun action => action.isTyping = false) (SparesEnd Good)) (line : String) :
      SparesEnd Good _ (submitLine base.seated i line).run :=
    hok.tends.submitLine (hok.tends.dispatch fun found honly a => hok.runCommand hstage hi honly a)
      (fun _ => hok.lift (hupdate fun _ => rfl)) (hok.lift (hok.stop rfl)) line
  have hinner := hok.inner (fun i hi line _ => hsubmit i hi line)
    (fun i hi bytes htyping => absurd htyping (by simp [Action.isTyping]))
    base.bounds.nesting
  exact hok.tends.takeLine_of_greets hgreets (hsubmit _ hinner line)

/-! Where typing leads. -/

theorem take_inLine (dogged : Bool) {b : UInt8} (hb : isLineEnd b = false) {s : Sitting ρ}
    (hs : Good s.world) :
    let r := (take base.seated dogged b).run s
    Good r.state.world ∧ r.state.state.lineEnded = false := by
  have hkey : s.state.key base.config b = ((s.state.edit base.config b).1, none) :=
    if_neg (by rw [hb]; exact Bool.false_ne_true)
  have hended := s.state.lineEnded_edit base.config b
  intro r
  have hstate : r.state = ((press base.seated b).run s).state := by
    rw [← congrArg Ran.state (take_run dogged b s)]
  rw [hstate, press, pressKey_run, hkey]
  dsimp only
  split
  · obtain ⟨hgood, hsame, -⟩ := (bears_sparesEnd hstable).tends.send
      (s.state.shown base.config b).bytes ⟨(s.state.edit base.config b).1, s.world⟩ hs
    exact ⟨hgood, hsame.trans hended⟩
  · exact ⟨hs, hended⟩

theorem typed_inLine (dogged : Bool) {bytes : List UInt8}
    (hline : ∀ b ∈ bytes, isLineEnd b = false) {s : Sitting ρ} (hs : Good s.world)
    (hended : s.state.lineEnded = false) :
    let r := typed base dogged bytes s
    Good r.state.world ∧ r.state.state.lineEnded = false := by
  induction bytes generalizing s with
  | nil => exact ⟨hs, hended⟩
  | cons b rest ih =>
      obtain ⟨hb, hrest⟩ := List.forall_mem_cons.mp hline
      obtain ⟨hgood, hopen⟩ := take_inLine hstable dogged hb hs
      intro r
      have hr : r = ((take base.seated dogged b).run s).andThen (typed base dogged rest) := by
        rw [← typed_singleton, ← typed_append]
        rfl
      rw [hr, Ran.andThen]
      split
      · exact ih hrest hgood hopen
      · exact ⟨hgood, hopen⟩

/-- The first byte of an end has the line taken, and another one is awaited. -/
theorem take_end (dogged : Bool) {b : UInt8} (hb : isLineEnd b = true) {s : Sitting ρ}
    (hs : Good s.world) (hended : s.state.lineEnded = false) :
    let r := (take base.seated dogged b).run s
    Good r.state.world ∧ r.state.state.lineEnded = true := by
  have hkey : s.state.key base.config b =
      ({ s.state with lineEnded := true, typed := .empty }, some s.state.line) := by
    rw [State.key, if_pos hb, State.endLine, if_neg (by rw [hended]; exact Bool.false_ne_true)]
  intro r
  have hstate : r.state = ((press base.seated b).run s).state := by
    rw [← congrArg Ran.state (take_run dogged b s)]
  rw [hstate, press, pressKey_run, hkey]
  obtain ⟨hgood, hsame, -⟩ := sparesEnd_takeLine hstable s.state.line
    ⟨{ s.state with lineEnded := true, typed := .empty }, s.world⟩ hs
  exact ⟨hgood, hsame⟩

omit hstable in
/-- The second byte of an end changes nothing else. -/
theorem take_folded (dogged : Bool) {b : UInt8} (hb : isLineEnd b = true) {s : Sitting ρ}
    (hended : s.state.lineEnded = true) :
    (take base.seated dogged b).run s = ⟨.ok (), s.opened, []⟩ := by
  have hkey : s.state.key base.config b = ({ s.state with lineEnded := false }, none) := by
    rw [State.key, if_pos hb, State.endLine, if_pos hended]
  have hpress : (press base.seated b).run s = ⟨.ok (), s.opened, []⟩ := by
    rw [press, pressKey_run, hkey]
    exact if_neg fun h => by rw [hb] at h; exact Bool.noConfusion h.1
  rw [take_run, hpress]
  cases dogged <;> rfl

omit hstable in
/-- It does not matter which byte ends a line. -/
theorem take_end_congr (dogged : Bool) {b b' : UInt8} (hb : isLineEnd b = true)
    (hb' : isLineEnd b' = true) : take base.seated dogged b = take base.seated dogged b' := by
  have hpress : press base.seated b = press base.seated b' := by
    rw [press, press, pressKey_eq, pressKey_eq, if_pos hb, if_pos hb']
  rw [take, take, hpress]

/-- The end of a line is its first byte, and after it a second one that is passed over. -/
theorem typed_ending (dogged : Bool) (e : LineEnd) (more : List UInt8) {s : Sitting ρ}
    (hs : Good s.world) (hended : s.state.lineEnded = false) :
    typed base dogged (e.bytes ++ more) s =
      ((take base.seated dogged 13).run s).andThen fun t =>
        typed base dogged more (if e.second? = none then t else t.opened) := by
  have hfirst : (take base.seated dogged e.first).run s = (take base.seated dogged 13).run s := by
    rw [take_end_congr dogged e.isLineEnd_first (show isLineEnd 13 = true from rfl)]
  -- After the first byte the next end is passed over, unless something else comes before it.
  obtain ⟨-, hnext⟩ := take_end hstable dogged (b := 13) rfl hs hended
  have hbytes : e.bytes ++ more = [e.first] ++ (e.second?.toList ++ more) := rfl
  rw [hbytes, typed_append, typed_singleton, hfirst]
  cases hsecond : e.second? with
  | none => rfl
  | some b =>
      have hfold : typed base dogged ([b] ++ more) ((take base.seated dogged 13).run s).state =
          typed base dogged more ((take base.seated dogged 13).run s).state.opened := by
        rw [typed_append, typed_singleton,
          take_folded dogged (LineEnd.isLineEnd_of_second? hsecond) hnext]
        rfl
      rw [Ran.andThen, Ran.andThen, Option.toList_some, hfold, if_neg (Option.some_ne_none b)]

/-- A line before other things, typed with a line just ended or not. -/
theorem Ran.Even.line (dogged : Bool) (line : EndedLine) {s : Sitting ρ} (hs : Good s.world)
    (hstart : s.state.lineEnded = false ∨ line.text ≠ []) {more more' : List UInt8}
    (hmore : ∀ t : Sitting ρ, Good t.world →
      (line.ending.second? ≠ none → t.state.lineEnded = false) →
      (typed base dogged more t).Even (typed base dogged more' t.opened)) :
    (typed base dogged (line.bytes ++ more) s).Even
      (typed base dogged (line.usual.bytes ++ more') s.opened) := by
  have hopen : typed base dogged line.text s = typed base dogged line.text s.opened := by
    rcases hstart with hended | hne
    · rw [Sitting.opened_of_not_lineEnded hended]
    · exact typed_opened base dogged hne line.inLine s
  obtain ⟨hgood, hended⟩ :=
    typed_inLine hstable dogged line.inLine (s := s.opened) hs rfl
  obtain ⟨hgood', -⟩ := take_end hstable dogged (b := 13) rfl hgood hended
  have hsplit : line.bytes ++ more = line.text ++ (line.ending.bytes ++ more) :=
    List.append_assoc _ _ _
  have hsplit' : line.usual.bytes ++ more' = line.text ++ (LineEnd.crLf.bytes ++ more') :=
    List.append_assoc _ _ _
  rw [hsplit, hsplit', typed_append, typed_append, hopen]
  refine (Ran.Even.refl _).andThen fun _ => ?_
  rw [typed_ending hstable dogged _ _ hgood hended, typed_ending hstable dogged _ _ hgood hended]
  refine (Ran.Even.refl _).andThen fun _ => ?_
  by_cases hsecond : line.ending.second? = none
  · rw [if_pos hsecond]
    exact hmore _ hgood' fun hdouble => absurd hsecond hdouble
  · rw [if_neg hsecond]
    exact hmore _ hgood' fun _ => rfl

/-- Lines that may end each in its own way, and what is typed of one more. -/
theorem even_lines (dogged : Bool) {lines : List EndedLine} (hdistinct : Distinct lines)
    {rest : List UInt8} (hrest : ∀ b ∈ rest, isLineEnd b = false) {s : Sitting ρ}
    (hs : Good s.world)
    (hstart : s.state.lineEnded = false ∨ ∀ line ∈ lines.head?, line.text ≠ []) :
    (typed base dogged (lines.flatMap EndedLine.bytes ++ rest) s).Even
      (typed base dogged (lines.flatMap (fun line => line.usual.bytes) ++ rest) s.opened) := by
  -- Of two sessions the one may count a line as just ended and the other not.  What comes next
  -- makes them equal again: a line that is not empty, or else what is typed in the end.
  induction lines generalizing s with
  | nil =>
      by_cases hne : rest = []
      · rw [hne]
        exact ⟨rfl, rfl, rfl⟩
      · rw [List.flatMap_nil, List.flatMap_nil, List.nil_append,
          typed_opened base dogged hne hrest s]
        exact .refl _
  | cons line lines ih =>
      rw [List.flatMap_cons, List.flatMap_cons, List.append_assoc, List.append_assoc]
      have hline : s.state.lineEnded = false ∨ line.text ≠ [] :=
        hstart.imp_right fun h => h line rfl
      refine Ran.Even.line hstable dogged line hs hline fun t ht hdouble => ?_
      obtain ⟨hnext, hdistinct⟩ := List.isChain_cons.mp hdistinct
      refine ih hdistinct ht ?_
      by_cases hsecond : line.ending.second? = none
      · exact Or.inr fun next hmem => hnext next hmem hsecond
      · exact Or.inl (hdouble hsecond)

end

/-- It makes no difference how lines end.  Each may end in its own way, as long as no line that
a single byte ends is followed by an empty one: the session does the same as if all of them
ended in a carriage return and a line feed, and it is left the same, but for whether it counts
a line as just ended. -/
theorem line_ends_alike (base : Host (Around ρ)) {Good : ρ → Prop}
    (hstable : base.Stable (fun action => action.isTyping = false) Good) (dogged : Bool)
    (lines : List EndedLine) (hdistinct : Distinct lines) (rest : List UInt8)
    (hrest : ∀ b ∈ rest, isLineEnd b = false) (s : Sitting ρ) (hs : Good s.world)
    (hended : s.state.lineEnded = false) :
    (typed base dogged (lines.flatMap EndedLine.bytes ++ rest) s).Even
      (typed base dogged (lines.flatMap (fun line => line.usual.bytes) ++ rest) s) := by
  have heven := even_lines hstable dogged hdistinct hrest hs (Or.inl hended)
  rwa [Sitting.opened_of_not_lineEnded hended] at heven

/-- A login, an empty line and the beginning of another line, each line ended in its own way. -/
def mixedLines : List EndedLine :=
  [⟨Text.encode "ann", by decide +kernel, .cr⟩, ⟨Text.encode "pw", by decide +kernel, .lfCr⟩,
    ⟨[], fun _ hb => (List.not_mem_nil hb).elim, .crLf⟩,
    ⟨Text.encode "help", by decide +kernel, .lf⟩]

theorem line_ends_alike_mixed :
    let lines := mixedLines.flatMap EndedLine.bytes ++ Text.encode "qu"
    let usual := mixedLines.flatMap (fun line => line.usual.bytes) ++ Text.encode "qu"
    let start := ⟨.initial guarded.around.config, guarded⟩
    (typed guarded.around true lines start).Even (typed guarded.around true usual start) ∧
      (typed guarded.around true lines start).state.state.stage = .commandEntry := by
  have hstable := Desk.stable_around (d := guarded) rfl fun action => action.isTyping = false
  have hholds : guarded.Holds fun action => action.isTyping = false :=
    ⟨fun _ hmem => (List.not_mem_nil hmem).elim, fun hstop => absurd rfl hstop⟩
  exact ⟨line_ends_alike guarded.around hstable true mixedLines (by decide +kernel) _
    (by decide +kernel) _ hholds rfl, by decide +kernel⟩

end RemoteConsole.Session
