/-
Words and the texts that spell them.  A text spells just one list of words, and every
list of words has a spelling.
-/
import Mathlib.Tactic.Common
import RemoteConsole.Text.Blank

namespace RemoteConsole.Text

/-- A run of characters that are not blank. -/
def IsWord (w : String) : Prop :=
  w ≠ "" ∧ ∀ c ∈ w.toList, isBlank c = false

/-- A text spells a list of words: it holds them in this order, each between blanks or the
ends of the text, and nothing else but blanks. -/
inductive Spells : List String → List Char → Prop
  | nil : Spells [] []
  | blank {ws : List String} {cs : List Char} {c : Char} (hc : isBlank c = true)
      (h : Spells ws cs) : Spells ws (c :: cs)
  | word {ws : List String} {cs : List Char} {w : String} (hw : IsWord w)
      (hcs : ∀ c ∈ cs.head?, isBlank c = true) (h : Spells ws cs) :
      Spells (w :: ws) (w.toList ++ cs)

/-- The words among characters. -/
def wordsIn (cs : List Char) : List String :=
  ((pieces isBlank cs).filter fun piece => !piece.isEmpty).map String.ofList

theorem words_eq (text : String) : words text = wordsIn text.toList := rfl

/-- To cut a text is to split the list of its characters. -/
theorem pieces_eq_splitOnP (sep : Char → Bool) (cs : List Char) :
    pieces sep cs = cs.splitOnP sep := by
  induction cs with
  | nil => rfl
  | cons c cs ih =>
      rw [List.splitOnP_cons_eq_if_modifyHead, ← ih, pieces]
      cases hp : pieces sep cs with
      | nil => exact absurd hp (pieces_ne_nil sep cs)
      | cons p ps => rfl

theorem pieces_append {sep : Char → Bool} {w : List Char} (hw : ∀ c ∈ w, sep c = false)
    (cs : List Char) : pieces sep (w ++ cs) = (pieces sep cs).modifyHead (w ++ ·) := by
  induction w with
  | nil => cases hp : pieces sep cs <;> simp [hp]
  | cons d w ih =>
      obtain ⟨hd, hw⟩ := List.forall_mem_cons.mp hw
      rw [List.cons_append, pieces, if_neg (by simp [hd]), ih hw]
      cases hp : pieces sep cs with
      | nil => exact absurd hp (pieces_ne_nil sep cs)
      | cons p ps => rfl

theorem wordsIn_blank {c : Char} (hc : isBlank c = true) (cs : List Char) :
    wordsIn (c :: cs) = wordsIn cs := by
  rw [wordsIn, pieces, if_pos hc]
  rfl

/-- Where a text does not go on with a word, its first piece is empty. -/
theorem pieces_eq_nil_cons {sep : Char → Bool} {cs : List Char}
    (hcs : ∀ c ∈ cs.head?, sep c = true) : ∃ ps, pieces sep cs = [] :: ps := by
  cases cs with
  | nil => exact ⟨[], rfl⟩
  | cons c cs => exact ⟨pieces sep cs, if_pos (hcs c rfl)⟩

theorem wordsIn_word {w : String} (hw : IsWord w) {cs : List Char}
    (hcs : ∀ c ∈ cs.head?, isBlank c = true) :
    wordsIn (w.toList ++ cs) = w :: wordsIn cs := by
  obtain ⟨ps, hps⟩ := pieces_eq_nil_cons hcs
  have hne : w.toList.isEmpty = false := by
    rw [List.isEmpty_eq_false_iff]
    exact fun h => hw.1 (String.toList_eq_nil_iff.mp h)
  rw [wordsIn, wordsIn, pieces_append hw.2, hps]
  simp [hne]

theorem Spells.wordsIn_eq {ws : List String} {cs : List Char} (h : Spells ws cs) :
    wordsIn cs = ws := by
  induction h with
  | nil => rfl
  | blank hc _ ih => rw [wordsIn_blank hc, ih]
  | word hw hcs _ ih => rw [wordsIn_word hw hcs, ih]

/-- Every text spells its words.  The induction is on the length, since a word is taken off
as a whole. -/
theorem spells_wordsIn (cs : List Char) : Spells (wordsIn cs) cs := by
  induction hn : cs.length using Nat.strongRecOn generalizing cs with
  | ind n ih =>
      cases cs with
      | nil => exact .nil
      | cons c rest =>
          cases hc : isBlank c with
          | true =>
              rw [wordsIn_blank hc]
              exact .blank hc (ih rest.length (by simp [← hn]) rest rfl)
          | false =>
              let inWord : Char → Bool := fun d => !isBlank d
              let w := (c :: rest).takeWhile inWord
              let more := (c :: rest).dropWhile inWord
              have hsplit : c :: rest = (String.ofList w).toList ++ more := by
                rw [String.toList_ofList]
                exact List.takeWhile_append_dropWhile.symm
              have hw : IsWord (String.ofList w) := by
                refine ⟨by simp [w, inWord, hc], fun d hd => ?_⟩
                rw [String.toList_ofList] at hd
                simpa [inWord] using List.all_eq_true.mp List.all_takeWhile d hd
              have hmore : ∀ d ∈ more.head?, isBlank d = true := by
                intro d hd
                have hstop := List.head?_dropWhile_not inWord (c :: rest)
                rw [Option.mem_def.mp hd] at hstop
                simpa [inWord] using hstop
              have hshorter : more.length < n := by
                rw [← hn, hsplit, List.length_append]
                have hpos : 0 < (String.ofList w).toList.length := by simp [w, inWord, hc]
                omega
              rw [hsplit, wordsIn_word hw hmore]
              exact .word hw hmore (ih _ hshorter more rfl)

/-- A text spells its words and no others. -/
theorem words_eq_iff {text : String} {ws : List String} :
    words text = ws ↔ Spells ws text.toList := by
  rw [words_eq]
  refine ⟨?_, Spells.wordsIn_eq⟩
  rintro rfl
  exact spells_wordsIn text.toList

theorem Spells.isWord {ws : List String} {cs : List Char} (h : Spells ws cs) :
    ∀ w ∈ ws, IsWord w := by
  induction h with
  | nil => simp
  | blank _ _ ih => exact ih
  | word hw _ _ ih => exact List.forall_mem_cons.mpr ⟨hw, ih⟩

theorem isWord_of_mem_words {text w : String} (hw : w ∈ words text) : IsWord w :=
  (words_eq_iff.mp rfl).isWord w hw

/-- Words are spelled with single spaces between them. -/
theorem spells_intercalate {ws : List String} (hws : ∀ w ∈ ws, IsWord w) :
    Spells ws (" ".intercalate ws).toList := by
  rw [String.toList_intercalate]
  induction ws with
  | nil => exact .nil
  | cons w ws ih =>
      obtain ⟨hw, hws⟩ := List.forall_mem_cons.mp hws
      cases ws with
      | nil =>
          have hlast : Spells [w] (w.toList ++ []) := .word hw (by simp) .nil
          simpa using hlast
      | cons w' ws =>
          have hspace : isBlank ' ' = true := by decide
          rw [List.map_cons, List.map_cons, List.intercalate_cons_cons, List.append_assoc]
          refine .word hw (fun c hc => ?_) (.blank hspace (ih hws))
          obtain rfl : ' ' = c := by simpa using hc
          exact hspace

/-- The normal spelling of a text spells the same words. -/
theorem words_normalize (text : String) : words (normalize text) = words text :=
  words_eq_iff.mpr (spells_intercalate fun _ hw => isWord_of_mem_words hw)

end RemoteConsole.Text
