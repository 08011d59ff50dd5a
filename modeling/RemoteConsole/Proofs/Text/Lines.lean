/-
The lines of a text: the text in just one way as lines with their ends.
-/
import RemoteConsole.Proofs.Text.Words
import RemoteConsole.Text.Line

namespace RemoteConsole.Text

/-- Characters as lines.  Each line ends at a line feed, which a carriage return may precede
that is no part of the line; the last may lack its end, and is not empty then. -/
inductive Lined : List String → List Char → Prop where
  | nil : Lined [] []
  | fed (line : List Char) {rest : List Char} {ls : List String} (hline : '\n' ∉ line)
      (hreturn : line.getLast? ≠ some '\r') (hrest : Lined ls rest) :
      Lined (String.ofList line :: ls) (line ++ '\n' :: rest)
  | returned (line : List Char) {rest : List Char} {ls : List String} (hline : '\n' ∉ line)
      (hrest : Lined ls rest) : Lined (String.ofList line :: ls) (line ++ '\r' :: '\n' :: rest)
  | last {line : List Char} (hline : '\n' ∉ line) (hne : line ≠ []) :
      Lined [String.ofList line] line

/-- The lines among characters. -/
def linesIn (cs : List Char) : List String :=
  let cut := pieces (· == '\n') cs
  let last := cut.getLastD []
  (cut.dropLast.map dropReturn ++ if last.isEmpty then [] else [last]).map String.ofList

theorem lines_eq (text : String) : lines text = linesIn text.toList := rfl

theorem newline_sep {line : List Char} (hline : '\n' ∉ line) :
    ∀ c ∈ line, (c == '\n') = false :=
  fun _ hc => beq_false_of_ne fun heq => hline (heq ▸ hc)

theorem linesIn_fed {line : List Char} (hline : '\n' ∉ line) (rest : List Char) :
    linesIn (line ++ '\n' :: rest) = String.ofList (dropReturn line) :: linesIn rest := by
  have hcut : pieces (· == '\n') (line ++ '\n' :: rest) = line :: pieces (· == '\n') rest := by
    rw [pieces_append (newline_sep hline), pieces, if_pos (beq_self_eq_true _)]
    simp
  obtain ⟨p, ps, hps⟩ := List.exists_cons_of_ne_nil (pieces_ne_nil (· == '\n') rest)
  rw [linesIn, hcut, linesIn]
  simp [hps]

theorem linesIn_unended {line : List Char} (hline : '\n' ∉ line) (hne : line ≠ []) :
    linesIn line = [String.ofList line] := by
  have hcut : pieces (· == '\n') line = [line] := by
    simpa [pieces] using pieces_append (newline_sep hline) []
  rw [linesIn, hcut]
  simp [hne]

theorem Lined.linesIn_eq {ls : List String} {cs : List Char} (h : Lined ls cs) :
    linesIn cs = ls := by
  induction h with
  | nil => rfl
  | fed line hline hreturn hrest ih => rw [linesIn_fed hline, dropReturn, if_neg hreturn, ih]
  | @returned line rest ls hline hrest ih =>
      have hline' : '\n' ∉ line ++ ['\r'] := by simpa using hline
      rw [List.append_cons, linesIn_fed hline', ih, dropReturn, if_pos (by simp),
        List.dropLast_concat]
  | last hline hne => exact linesIn_unended hline hne

/-- A character before lines is part of the first of them. -/
theorem Lined.exists_cons {ls : List String} {cs : List Char} (h : Lined ls cs) {c : Char}
    (hc : c ≠ '\n') : ∃ ls', Lined ls' (c :: cs) := by
  have hmem : ∀ {line : List Char}, '\n' ∉ line → '\n' ∉ c :: line := by
    simp [Ne.symm hc]
  cases h with
  | nil => exact ⟨_, .last (hmem List.not_mem_nil) (List.cons_ne_nil c [])⟩
  | @fed line rest ls hline hreturn hrest =>
      by_cases hlone : c = '\r' ∧ line = []
      · obtain ⟨rfl, rfl⟩ := hlone
        exact ⟨_, .returned [] List.not_mem_nil hrest⟩
      · refine ⟨_, .fed (c :: line) (hmem hline) ?_ hrest⟩
        cases line <;> simp_all
  | returned line hline hrest => exact ⟨_, .returned (c :: line) (hmem hline) hrest⟩
  | last hline hne => exact ⟨_, .last (hmem hline) (List.cons_ne_nil c _)⟩

theorem exists_lined (cs : List Char) : ∃ ls, Lined ls cs := by
  induction cs with
  | nil => exact ⟨[], .nil⟩
  | cons c cs ih =>
      obtain ⟨ls, h⟩ := ih
      by_cases hc : c = '\n'
      · subst hc
        exact ⟨_, .fed [] List.not_mem_nil (by simp) h⟩
      · exact h.exists_cons hc

/-- The lines of a text are what the text is as lines. -/
theorem lines_eq_iff {text : String} {ls : List String} :
    lines text = ls ↔ Lined ls text.toList := by
  rw [lines_eq]
  constructor
  · rintro rfl
    obtain ⟨ls, h⟩ := exists_lined text.toList
    rwa [h.linesIn_eq]
  · exact Lined.linesIn_eq

theorem lined_lines (text : String) : Lined (lines text) text.toList :=
  lines_eq_iff.mp rfl

/-- No line holds a line feed. -/
theorem Lined.not_mem {ls : List String} {cs : List Char} (h : Lined ls cs) {line : String}
    (hline : line ∈ ls) : '\n' ∉ line.toList := by
  induction h with
  | nil => cases hline
  | fed _ hfirst _ _ ih | returned _ hfirst _ ih =>
      rcases List.mem_cons.mp hline with rfl | hline
      · rwa [String.toList_ofList]
      · exact ih hline
  | last hfirst _ =>
      obtain rfl := List.mem_singleton.mp hline
      rwa [String.toList_ofList]

end RemoteConsole.Text
