/-
The registry as a dictionary: a finite map whose keys are lists of words.  However
commands are registered and removed, the registry answers as the dictionary does.
-/
import Mathlib.Data.Finset.Sort
import RemoteConsole.Proofs.Text.Utf8Order
import RemoteConsole.Proofs.Text.Words
import RemoteConsole.Session.Registry

namespace RemoteConsole.Session

/-- The name of a command: some words. -/
structure CommandName where
  words : List String
  ne_nil : words ≠ []
  isWord : ∀ w ∈ words, Text.IsWord w

namespace CommandName

/-- The words with single spaces between them. -/
def spelling (n : CommandName) : String :=
  " ".intercalate n.words

/-- The words of a text, if there are any. -/
def ofText? (text : String) : Option CommandName :=
  if h : Text.words text = [] then none
  else some ⟨Text.words text, h, fun _ => Text.isWord_of_mem_words⟩

/-- The names listed in a text, one a line.  Blank lines list none. -/
def listed (text : String) : List CommandName :=
  (text.toList.splitOn '\n').filterMap fun line => ofText? (String.ofList line)

theorem ext_words {n m : CommandName} (h : n.words = m.words) : n = m := by
  cases n
  cases m
  cases h
  rfl

theorem ofText?_eq_some_iff {text : String} {n : CommandName} :
    ofText? text = some n ↔ Text.Spells n.words text.toList := by
  rw [← Text.words_eq_iff, ofText?]
  split
  next h => simp [h, n.ne_nil.symm]
  next h =>
    rw [Option.some_inj]
    exact ⟨fun hn => hn ▸ rfl, fun hn => ext_words hn⟩

theorem ofText?_spelling (n : CommandName) : ofText? n.spelling = some n :=
  ofText?_eq_some_iff.mpr (Text.spells_intercalate n.isWord)

theorem spelling_injective : Function.Injective spelling := by
  intro n m h
  have hsame : some n = some m := by rw [← ofText?_spelling n, h, ofText?_spelling]
  exact Option.some_inj.mp hsame

/-- Names are ordered as the bytes of their spellings are. -/
instance : LinearOrder CommandName :=
  LinearOrder.lift' (fun n => Text.octets n.spelling)
    (Text.octets_injective.comp spelling_injective)

theorem spelling_lt_spelling {n m : CommandName} (h : n < m) : n.spelling < m.spelling :=
  Text.octets_lt_iff.mp h

/-- The normal spelling of a text is that of the name in it. -/
theorem map_spelling_ofText? (text : String) :
    (ofText? text).map spelling =
      if Text.normalize text = "" then none else some (Text.normalize text) := by
  unfold ofText?
  split
  next h => simp [Text.normalize, h]
  next h =>
    have hne : Text.normalize text ≠ "" := by
      intro hempty
      have hwords := Text.words_normalize text
      rw [hempty] at hwords
      exact h hwords.symm
    rw [if_neg hne]
    rfl

/-- The registry lists the same names, but for repetitions in a row. -/
theorem namesIn_eq (text : String) :
    Registry.namesIn text = ((listed text).map spelling).eraseReps := by
  unfold Registry.namesIn listed
  rw [Text.pieces_eq_splitOnP, List.splitOn]
  dsimp only
  congr 1
  induction text.toList.splitOnP (· == '\n') with
  | nil => rfl
  | cons line lines ih =>
      have hline := map_spelling_ofText? (String.ofList line)
      rw [List.map_cons, List.filterMap_cons]
      cases hname : ofText? (String.ofList line) with
      | none =>
          have hempty : Text.normalize (String.ofList line) = "" := by simpa [hname] using hline
          rw [List.filter_cons_of_neg (by simp [hempty]), ih]
      | some n =>
          rw [hname, Option.map_some] at hline
          split at hline
          · cases hline
          next hne =>
            rw [List.filter_cons_of_pos (by simpa using hne), ih, ← Option.some_inj.mp hline]
            rfl

theorem mem_eraseReps_loop {name a : String} (names kept : List String) :
    name ∈ List.eraseRepsBy.loop (· == ·) a names kept ↔ name = a ∨ name ∈ names ∨ name ∈ kept := by
  induction names generalizing a kept with
  | nil => simp [List.eraseRepsBy.loop, or_comm]
  | cons b names ih =>
      rw [List.eraseRepsBy.loop]
      split
      next hsame =>
        obtain rfl : a = b := eq_of_beq hsame
        rw [ih, List.mem_cons, or_assoc, or_self_left]
      next =>
        rw [ih, List.mem_cons, List.mem_cons]
        tauto

theorem mem_eraseReps {name : String} {names : List String} :
    name ∈ names.eraseReps ↔ name ∈ names := by
  cases names with
  | nil => rfl
  | cons a names => simp [List.eraseReps, List.eraseRepsBy, mem_eraseReps_loop]

theorem mem_namesIn {text name : String} :
    name ∈ Registry.namesIn text ↔ name ∈ (listed text).map spelling := by
  rw [namesIn_eq, mem_eraseReps]

end CommandName

/-! Dictionaries. -/

/-- A finite map from names to entries. -/
structure Dictionary (H : Type) where
  find : CommandName → Option (Entry H)
  names : Finset CommandName
  mem_names : ∀ n, n ∈ names ↔ (find n).isSome = true

namespace Dictionary

variable {H : Type}

def empty : Dictionary H where
  find _ := none
  names := ∅
  mem_names := by simp

/-- Give names an entry, and leave the others alone. -/
def put (d : Dictionary H) (names : List CommandName) (entry : Entry H) : Dictionary H where
  find n := if n ∈ names then some entry else d.find n
  names := d.names ∪ names.toFinset
  mem_names n := by by_cases hn : n ∈ names <;> simp [hn, d.mem_names]

/-- Forget names, and leave the others alone. -/
def drop (d : Dictionary H) (names : List CommandName) : Dictionary H where
  find n := if n ∈ names then none else d.find n
  names := d.names \ names.toFinset
  mem_names n := by by_cases hn : n ∈ names <;> simp [hn, d.mem_names]

/-- Give an entry all the names listed, if there are any and none is taken. -/
def register (d : Dictionary H) (listed : String) (entry : Entry H) : Dictionary H × Bool :=
  let names := CommandName.listed listed
  if names = [] ∨ ∃ n ∈ names, n ∈ d.names then (d, false) else (d.put names entry, true)

/-- Forget the names listed.  The flag tells whether any was known. -/
def remove (d : Dictionary H) (listed : String) : Dictionary H × Bool :=
  let names := CommandName.listed listed
  (d.drop names, decide (∃ n ∈ names, n ∈ d.names))

/-- The entry of the name that a text spells. -/
def lookup (d : Dictionary H) (text : String) : Option (Entry H) :=
  (CommandName.ofText? text).bind d.find

/-- The names in order, spelled normally, with their entries. -/
def entries (d : Dictionary H) : List (String × Entry H) :=
  d.names.sort.filterMap fun n => (d.find n).map fun entry => (n.spelling, entry)

def size (d : Dictionary H) : Nat :=
  d.names.card

theorem size_eq (d : Dictionary H) : d.size = d.entries.length := by
  have hall : ∀ n ∈ d.names.sort,
      ((d.find n).map fun entry => (n.spelling, entry)).isSome = true := by
    intro n hn
    rw [Option.isSome_map]
    exact (d.mem_names n).mp ((Finset.mem_sort _).mp hn)
  rw [entries, List.filterMap_length_eq_length.mpr hall, Finset.length_sort, size]

theorem mem_entries (d : Dictionary H) (name : String) (entry : Entry H) :
    (name, entry) ∈ d.entries ↔ ∃ n : CommandName, n.spelling = name ∧ d.find n = some entry := by
  simp only [entries, List.mem_filterMap, Finset.mem_sort, Option.map_eq_some_iff, Prod.mk.injEq]
  constructor
  · rintro ⟨n, -, e, hfind, hname, rfl⟩
    exact ⟨n, hname, hfind⟩
  · rintro ⟨n, hname, hfind⟩
    exact ⟨n, (d.mem_names n).mpr (by rw [hfind]; rfl), entry, hfind, hname, rfl⟩

/-- The names in order, with their entries. -/
def commands (d : Dictionary H) : List (CommandName × Entry H) :=
  d.names.sort.filterMap fun n => (d.find n).map fun entry => (n, entry)

theorem entries_eq_commands (d : Dictionary H) :
    d.entries = d.commands.map fun c => (c.1.spelling, c.2) := by
  simp only [entries, commands, List.map_filterMap, Option.map_map]
  rfl

theorem mem_commands {d : Dictionary H} {n : CommandName} {entry : Entry H} :
    (n, entry) ∈ d.commands ↔ d.find n = some entry := by
  simp only [commands, List.mem_filterMap, Finset.mem_sort, Option.map_eq_some_iff,
    Prod.mk.injEq]
  constructor
  · rintro ⟨n, -, e, hfind, rfl, rfl⟩
    exact hfind
  · intro hfind
    exact ⟨n, (d.mem_names n).mpr (by rw [hfind]; rfl), entry, hfind, rfl, rfl⟩

theorem increasing_commands (d : Dictionary H) :
    d.commands.Pairwise fun a b => Text.octets a.1.spelling < Text.octets b.1.spelling := by
  refine List.Pairwise.filterMap _ ?_ d.names.sortedLT_sort.pairwise
  intro n m hnm a ha b hb
  obtain ⟨e, -, rfl⟩ := Option.map_eq_some_iff.mp ha
  obtain ⟨e', -, rfl⟩ := Option.map_eq_some_iff.mp hb
  exact hnm

end Dictionary

/-! Entries in increasing order of name. -/

variable {H : Type}

/-- The names of entries increase. -/
def Increasing (entries : List (String × Entry H)) : Prop :=
  entries.Pairwise fun a b => a.1 < b.1

theorem Dictionary.increasing_entries (d : Dictionary H) : Increasing d.entries := by
  refine List.Pairwise.filterMap _ ?_ d.names.sortedLT_sort.pairwise
  intro n m hnm a ha b hb
  obtain ⟨e, -, rfl⟩ := Option.map_eq_some_iff.mp ha
  obtain ⟨e', -, rfl⟩ := Option.map_eq_some_iff.mp hb
  exact CommandName.spelling_lt_spelling hnm

/-- Increasing entries are known by their members. -/
theorem Increasing.ext {es fs : List (String × Entry H)} (hes : Increasing es)
    (hfs : Increasing fs) (h : ∀ p, p ∈ es ↔ p ∈ fs) : es = fs := by
  have hirrefl : Std.Irrefl fun a b : String × Entry H => a.1 < b.1 := ⟨fun _ => lt_irrefl _⟩
  have hantisymm : Std.Antisymm fun a b : String × Entry H => a.1 < b.1 :=
    ⟨fun _ _ hab hba => absurd hba hab.asymm⟩
  exact List.Pairwise.eq_of_mem_iff hes hfs h

theorem Increasing.lookup_eq_some_iff {es : List (String × Entry H)} (hes : Increasing es)
    {name : String} {entry : Entry H} :
    es.lookup name = some entry ↔ (name, entry) ∈ es := by
  induction es with
  | nil => simp
  | cons first rest ih =>
      obtain ⟨other, e⟩ := first
      obtain ⟨hfirst, hrest⟩ := List.pairwise_cons.mp hes
      by_cases hsame : name = other
      · subst hsame
        have hnot : (name, entry) ∉ rest := fun hmem => lt_irrefl name (hfirst (name, entry) hmem)
        simp [hnot, eq_comm]
      · rw [List.lookup_cons, beq_false_of_ne hsame, ih hrest]
        simp [hsame]

namespace Registry

theorem mem_insertInto {es : List (String × Entry H)} (hes : Increasing es)
    (name : String) (entry : Entry H) (p : String × Entry H) :
    p ∈ insertInto name entry es ↔ p = (name, entry) ∨ p.1 ≠ name ∧ p ∈ es := by
  induction es with
  | nil => simp [insertInto]
  | cons first rest ih =>
      obtain ⟨other, e⟩ := first
      obtain ⟨hfirst, hrest⟩ := List.pairwise_cons.mp hes
      -- What comes later has another name than what is passed by, or put over.
      have hlater : ∀ q ∈ rest, q.1 ≠ other := fun q hq => (hfirst q hq).ne'
      rw [insertInto]
      split_ifs with hlt heq
      · have hall : ∀ q ∈ (other, e) :: rest, q.1 ≠ name :=
          List.forall_mem_cons.mpr ⟨hlt.ne', fun q hq => (hlt.trans (hfirst q hq)).ne'⟩
        rw [List.mem_cons]
        exact or_congr_right ⟨fun hp => ⟨hall p hp, hp⟩, And.right⟩
      · subst heq
        simp only [List.mem_cons]
        refine or_congr_right ⟨fun hp => ⟨hlater p hp, Or.inr hp⟩, ?_⟩
        rintro ⟨hne, rfl | hp⟩
        · exact absurd rfl hne
        · exact hp
      · rw [List.mem_cons, List.mem_cons, ih hrest]
        constructor
        · rintro (rfl | rfl | ⟨hne, hp⟩)
          · exact Or.inr ⟨fun h => heq h.symm, Or.inl rfl⟩
          · exact Or.inl rfl
          · exact Or.inr ⟨hne, Or.inr hp⟩
        · rintro (rfl | ⟨hne, rfl | hp⟩)
          · exact Or.inr (Or.inl rfl)
          · exact Or.inl rfl
          · exact Or.inr (Or.inr ⟨hne, hp⟩)

theorem increasing_insertInto {es : List (String × Entry H)} (hes : Increasing es)
    (name : String) (entry : Entry H) : Increasing (insertInto name entry es) := by
  induction es with
  | nil => exact List.pairwise_singleton _ _
  | cons first rest ih =>
      obtain ⟨other, e⟩ := first
      obtain ⟨hfirst, hrest⟩ := List.pairwise_cons.mp hes
      rw [insertInto]
      split_ifs with hlt heq
      · refine List.pairwise_cons.mpr ⟨?_, hes⟩
        exact List.forall_mem_cons.mpr ⟨hlt, fun q hq => hlt.trans (hfirst q hq)⟩
      · subst heq
        exact List.pairwise_cons.mpr ⟨hfirst, hrest⟩
      · refine List.pairwise_cons.mpr ⟨fun q hq => ?_, ih hrest⟩
        rcases (mem_insertInto hrest name entry q).mp hq with rfl | ⟨-, hq⟩
        · exact lt_of_le_of_ne (not_lt.mp hlt) fun h => heq h.symm
        · exact hfirst q hq

/-! Registries that say the same as a dictionary. -/

/-- The registry holds its entries in order, and they are those of the dictionary. -/
structure Agrees (r : Registry H) (d : Dictionary H) : Prop where
  increasing : Increasing r.entries
  mem_iff : ∀ name entry, (name, entry) ∈ r.entries ↔
    ∃ n : CommandName, n.spelling = name ∧ d.find n = some entry

theorem agrees_empty : ({} : Registry H).Agrees .empty :=
  ⟨List.Pairwise.nil, by simp [Dictionary.empty]⟩

variable {r : Registry H} {d : Dictionary H}

theorem Agrees.entries_eq (h : r.Agrees d) : r.entries = d.entries :=
  h.increasing.ext d.increasing_entries fun p => by rw [h.mem_iff, d.mem_entries]

theorem Agrees.get?_spelling (h : r.Agrees d) (n : CommandName) :
    r.get? n.spelling = d.find n := by
  refine Option.ext fun entry => ?_
  rw [get?, h.increasing.lookup_eq_some_iff, h.mem_iff]
  constructor
  · rintro ⟨m, hname, hfind⟩
    rwa [← CommandName.spelling_injective hname]
  · exact fun hfind => ⟨n, rfl, hfind⟩

/-- Texts that spell certain names, in any order and any number of times. -/
def Spelt (texts : List String) (names : List CommandName) : Prop :=
  ∀ text, text ∈ texts ↔ ∃ n ∈ names, n.spelling = text

theorem Spelt.mem_iff {texts : List String} {names : List CommandName} (h : Spelt texts names)
    {n : CommandName} : n.spelling ∈ texts ↔ n ∈ names := by
  rw [h]
  constructor
  · rintro ⟨m, hm, hsame⟩
    rwa [← CommandName.spelling_injective hsame]
  · exact fun hn => ⟨n, hn, rfl⟩

theorem Spelt.eq_nil_iff {texts : List String} {names : List CommandName}
    (h : Spelt texts names) : texts = [] ↔ names = [] := by
  simp only [List.eq_nil_iff_forall_not_mem, h _, not_exists, not_and]
  exact ⟨fun hnone n hn => hnone n.spelling n hn rfl, fun hnone _ n hn _ => hnone n hn⟩

theorem spelt_namesIn (text : String) : Spelt (namesIn text) (CommandName.listed text) := by
  intro name
  rw [CommandName.mem_namesIn, List.mem_map]

theorem Agrees.any_contains (h : r.Agrees d) {texts : List String} {names : List CommandName}
    (hspelt : Spelt texts names) :
    texts.any r.contains = true ↔ ∃ n ∈ names, n ∈ d.names := by
  simp only [List.any_eq_true, hspelt _, contains, d.mem_names]
  constructor
  · rintro ⟨_, ⟨n, hn, rfl⟩, hknown⟩
    exact ⟨n, hn, h.get?_spelling n ▸ hknown⟩
  · rintro ⟨n, hn, hknown⟩
    exact ⟨_, ⟨n, hn, rfl⟩, (h.get?_spelling n).symm ▸ hknown⟩

theorem insert_names (hr : Increasing r.entries) (names : List String) (entry : Entry H) :
    let after := names.foldl (fun r name => r.insert name entry) r
    Increasing after.entries ∧ ∀ p, p ∈ after.entries ↔
      if p.1 ∈ names then p.2 = entry else p ∈ r.entries := by
  induction names generalizing r with
  | nil => exact ⟨hr, by simp⟩
  | cons name names ih =>
      obtain ⟨hafter, hmem⟩ := ih (increasing_insertInto hr name entry)
      refine ⟨hafter, fun p => (hmem p).trans ?_⟩
      have hone := mem_insertInto hr name entry p
      by_cases hlater : p.1 ∈ names
      · simp [hlater]
      · rw [if_neg hlater]
        refine hone.trans ?_
        by_cases hnow : p.1 = name <;> simp [hlater, hnow, Prod.ext_iff]

theorem erase_names (hr : Increasing r.entries) (names : List String) :
    let after := names.foldl erase r
    Increasing after.entries ∧ ∀ p, p ∈ after.entries ↔ p.1 ∉ names ∧ p ∈ r.entries := by
  induction names generalizing r with
  | nil => exact ⟨hr, by simp⟩
  | cons name names ih =>
      obtain ⟨hafter, hmem⟩ := ih (r := r.erase name) (hr.filter _)
      refine ⟨hafter, fun p => (hmem p).trans ?_⟩
      simp only [erase, List.mem_filter, decide_eq_true_eq, List.mem_cons, not_or]
      tauto

theorem Agrees.put (h : r.Agrees d) {texts : List String} {names : List CommandName}
    (hspelt : Spelt texts names) (entry : Entry H) :
    (texts.foldl (fun r name => r.insert name entry) r).Agrees (d.put names entry) := by
  obtain ⟨hafter, hmem⟩ := insert_names h.increasing texts entry
  refine ⟨hafter, fun name e => (hmem (name, e)).trans ?_⟩
  dsimp only [Dictionary.put]
  split
  next hlisted =>
    obtain ⟨n, hn, rfl⟩ := (hspelt name).mp hlisted
    constructor
    · rintro rfl
      exact ⟨n, rfl, if_pos hn⟩
    · rintro ⟨m, hname, hfind⟩
      rw [CommandName.spelling_injective hname, if_pos hn] at hfind
      exact (Option.some_inj.mp hfind).symm
  next hunlisted =>
    rw [h.mem_iff]
    refine exists_congr fun n => and_congr_right fun hname => ?_
    rw [if_neg fun hn => hunlisted (hname ▸ hspelt.mem_iff.mpr hn)]

theorem Agrees.drop (h : r.Agrees d) {texts : List String} {names : List CommandName}
    (hspelt : Spelt texts names) : (texts.foldl erase r).Agrees (d.drop names) := by
  obtain ⟨hafter, hmem⟩ := erase_names h.increasing texts
  refine ⟨hafter, fun name e => (hmem (name, e)).trans ?_⟩
  dsimp only [Dictionary.drop]
  rw [h.mem_iff, ← exists_and_left]
  refine exists_congr fun n => ?_
  constructor
  · rintro ⟨hunlisted, hname, hfind⟩
    refine ⟨hname, ?_⟩
    rwa [if_neg fun hn => hunlisted (hname ▸ hspelt.mem_iff.mpr hn)]
  · rintro ⟨hname, hfind⟩
    split at hfind
    · cases hfind
    next hn => exact ⟨fun hlisted => hn (hspelt.mem_iff.mp (hname ▸ hlisted)), hname, hfind⟩

/-! What is asked of registries and dictionaries. -/

inductive Call (H : Type) where
  | register (names : String) (entry : Entry H)
  | remove (names : String)
  | lookup (name : String)
  | entries
  | size

inductive Answer (H : Type) where
  | done (flag : Bool)
  | found (entry : Option (Entry H))
  | listed (entries : List (String × Entry H))
  | counted (count : Nat)

def answer (r : Registry H) : Call H → Registry H × Answer H
  | .register names entry => ((r.register names entry).1, .done (r.register names entry).2)
  | .remove names => ((r.remove names).1, .done (r.remove names).2)
  | .lookup name => (r, .found (r.lookup name))
  | .entries => (r, .listed r.entries)
  | .size => (r, .counted r.size)

/-- The answers to calls, one after another. -/
def answers (r : Registry H) : List (Call H) → List (Answer H)
  | [] => []
  | call :: rest => (r.answer call).2 :: (r.answer call).1.answers rest

end Registry

namespace Dictionary

open Registry (Call Answer)

def answer (d : Dictionary H) : Call H → Dictionary H × Answer H
  | .register names entry => ((d.register names entry).1, .done (d.register names entry).2)
  | .remove names => ((d.remove names).1, .done (d.remove names).2)
  | .lookup name => (d, .found (d.lookup name))
  | .entries => (d, .listed d.entries)
  | .size => (d, .counted d.size)

/-- The answers to calls, one after another. -/
def answers (d : Dictionary H) : List (Call H) → List (Answer H)
  | [] => []
  | call :: rest => (d.answer call).2 :: (d.answer call).1.answers rest

end Dictionary

namespace Registry

variable {r : Registry H} {d : Dictionary H}

theorem Agrees.register (h : r.Agrees d) (names : String) (entry : Entry H) :
    (r.register names entry).1.Agrees (d.register names entry).1 ∧
      (r.register names entry).2 = (d.register names entry).2 := by
  have hspelt := spelt_namesIn names
  have hrefused : ((namesIn names).isEmpty || (namesIn names).any r.contains) = true ↔
      CommandName.listed names = [] ∨ ∃ n ∈ CommandName.listed names, n ∈ d.names := by
    rw [Bool.or_eq_true, h.any_contains hspelt, List.isEmpty_iff, hspelt.eq_nil_iff]
  unfold Registry.register Dictionary.register
  dsimp only
  by_cases hrefuse : CommandName.listed names = [] ∨ ∃ n ∈ CommandName.listed names, n ∈ d.names
  · rw [if_pos (hrefused.mpr hrefuse), if_pos hrefuse]
    exact ⟨h, rfl⟩
  · rw [if_neg fun hr => hrefuse (hrefused.mp hr), if_neg hrefuse]
    exact ⟨h.put hspelt entry, rfl⟩

theorem Agrees.remove (h : r.Agrees d) (names : String) :
    (r.remove names).1.Agrees (d.remove names).1 ∧ (r.remove names).2 = (d.remove names).2 := by
  have hspelt := spelt_namesIn names
  unfold Registry.remove Dictionary.remove
  dsimp only
  rw [Bool.eq_iff_iff, decide_eq_true_iff]
  exact ⟨h.drop hspelt, h.any_contains hspelt⟩

theorem Agrees.lookup (h : r.Agrees d) (name : String) : r.lookup name = d.lookup name := by
  have hspelled := CommandName.map_spelling_ofText? name
  unfold Registry.lookup Dictionary.lookup
  cases hname : CommandName.ofText? name with
  | some n =>
      rw [hname, Option.map_some] at hspelled
      split at hspelled
      · cases hspelled
      · rw [← Option.some_inj.mp hspelled, h.get?_spelling]
        rfl
  | none =>
      -- No name is spelled by nothing.
      have hempty : Text.normalize name = "" := by simpa [hname] using hspelled
      refine Option.eq_none_iff_forall_ne_some.mpr fun entry hget => ?_
      rw [hempty, get?, h.increasing.lookup_eq_some_iff, h.mem_iff] at hget
      obtain ⟨n, hn, -⟩ := hget
      have hnone := n.ofText?_spelling
      rw [hn] at hnone
      cases hnone

theorem Agrees.answer (h : r.Agrees d) (call : Call H) :
    (r.answer call).1.Agrees (d.answer call).1 ∧ (r.answer call).2 = (d.answer call).2 := by
  cases call with
  | register names entry =>
      obtain ⟨hafter, hflag⟩ := h.register names entry
      exact ⟨hafter, congrArg Answer.done hflag⟩
  | remove names =>
      obtain ⟨hafter, hflag⟩ := h.remove names
      exact ⟨hafter, congrArg Answer.done hflag⟩
  | lookup name => exact ⟨h, congrArg Answer.found (h.lookup name)⟩
  | entries => exact ⟨h, congrArg Answer.listed h.entries_eq⟩
  | size =>
      have hsize : r.size = d.size := by rw [d.size_eq, ← h.entries_eq, Registry.size]
      exact ⟨h, congrArg Answer.counted hsize⟩

theorem Agrees.answers (h : r.Agrees d) (calls : List (Call H)) :
    r.answers calls = d.answers calls := by
  induction calls generalizing r d with
  | nil => rfl
  | cons call rest ih =>
      obtain ⟨hafter, hsame⟩ := h.answer call
      rw [Registry.answers, Dictionary.answers, hsame, ih hafter]

/-- Whatever is registered, removed and looked up, the registry answers as a dictionary does
whose keys are lists of words, and a text names a command just if it spells its words. -/
theorem answers_as_dictionary (calls : List (Call H)) :
    ({} : Registry H).answers calls = (Dictionary.empty : Dictionary H).answers calls ∧
      ∀ (text : String) (n : CommandName),
        CommandName.ofText? text = some n ↔ Text.Spells n.words text.toList :=
  ⟨agrees_empty.answers calls, fun _ _ => CommandName.ofText?_eq_some_iff⟩

end Registry

end RemoteConsole.Session
