/-
Tokens and the lines that hold them.  A token is written in segments, bare or in quotes.
However tokens are written on a line, the line is read as these tokens, and every list of
tokens can be written.
-/
import Mathlib.Tactic.Common
import RemoteConsole.Text.Quoted

namespace RemoteConsole.Text

/-- A part of a token as it is written. -/
inductive Segment where
  /-- Some characters that are neither blanks nor quotes. -/
  | bare (run : List Char) (ne_nil : run ≠ []) (plain : ∀ c ∈ run, isBlank c = false ∧ c ≠ '"')
  /-- Any characters between quotes. -/
  | quoted (content : List Char)

/-- What is written between quotes: a backslash goes before each quote and each backslash. -/
def escaped (content : List Char) : List Char :=
  content.flatMap fun c => if c = '"' ∨ c = '\\' then ['\\', c] else [c]

namespace Segment

/-- The part of the token. -/
def content : Segment → List Char
  | bare run _ _ => run
  | quoted content => content

/-- How it is written. -/
def text : Segment → List Char
  | bare run _ _ => run
  | quoted content => '"' :: (escaped content ++ ['"'])

end Segment

/-- A line holds tokens in this order.  Each is written in one segment or more and ends at a
blank or with the line, and for the rest there are blanks.  The last quote of a line may be
missing. -/
inductive Holds : List String → List Char → Prop
  | nil : Holds [] []
  | blank {ts : List String} {cs : List Char} {c : Char} (hc : isBlank c = true)
      (h : Holds ts cs) : Holds ts (c :: cs)
  | token {ts : List String} {cs : List Char} {segments : List Segment} (hne : segments ≠ [])
      (hcs : ∀ c ∈ cs.head?, isBlank c = true) (h : Holds ts cs) :
      Holds (String.ofList (segments.flatMap Segment.content) :: ts)
        (segments.flatMap Segment.text ++ cs)
  | unclosed (segments : List Segment) (content : List Char) :
      Holds [String.ofList (segments.flatMap Segment.content ++ content)]
        (segments.flatMap Segment.text ++ '"' :: escaped content)

/-! Reading one character. -/

theorem isBlank_quote : isBlank '"' = false := by
  decide

section

variable (scan : Scan) {cs : List Char}

theorem tokensFrom_quote :
    tokensFrom scan ('"' :: cs) =
      tokensFrom { scan with quoted := !scan.quoted, begun := true } cs := by
  rw [tokensFrom.eq_def]
  simp

variable {scan} in
theorem tokensFrom_backslash (hquoted : scan.quoted = true) (d : Char) :
    tokensFrom scan ('\\' :: d :: cs) =
      tokensFrom { scan with token := scan.token.add d } cs := by
  rw [tokensFrom.eq_def]
  simp [hquoted]

theorem tokensFrom_blank (hquoted : scan.quoted = false) {c : Char} (hc : isBlank c = true) :
    tokensFrom scan (c :: cs) =
      if scan.begun then scan.token.toList :: tokensFrom {} cs else tokensFrom scan cs := by
  have hquote : c ≠ '"' := by
    rintro rfl
    simp [isBlank_quote] at hc
  rw [tokensFrom.eq_def]
  simp [hquote, hquoted, hc]

variable {scan} in
/-- A quote is never taken as it is, a backslash not in quotes, and a blank only there. -/
theorem tokensFrom_plain {c : Char} (hquote : c ≠ '"')
    (hother : if scan.quoted then c ≠ '\\' else isBlank c = false) :
    tokensFrom scan (c :: cs) =
      tokensFrom { scan with token := scan.token.add c, begun := true } cs := by
  rw [tokensFrom.eq_def]
  cases hquoted : scan.quoted with
  | true => simp_all
  | false => simp_all

end

/-! Reading segments. -/

/-- The place after more of a token. -/
def Scan.gather (scan : Scan) (cs : List Char) : Scan :=
  { scan with token := scan.token.addAll cs, begun := true }

namespace Scan

theorem gather_nil {scan : Scan} (hbegun : scan.begun = true) : scan.gather [] = scan := by
  simp [gather, Log.addAll, ← hbegun]

theorem gather_singleton (scan : Scan) (c : Char) :
    scan.gather [c] = { scan with token := scan.token.add c, begun := true } :=
  rfl

theorem gather_append (scan : Scan) (cs ds : List Char) :
    scan.gather (cs ++ ds) = (scan.gather cs).gather ds := by
  simp [gather, Log.addAll]

theorem gather_cons (scan : Scan) (c : Char) (cs : List Char) :
    scan.gather (c :: cs) = (scan.gather [c]).gather cs :=
  scan.gather_append [c] cs

@[simp] theorem token_gather (scan : Scan) (cs : List Char) :
    (scan.gather cs).token.toList = scan.token.toList ++ cs := by
  simp [gather]

end Scan

section

variable {scan : Scan} {cs : List Char}

theorem tokensFrom_bare {run : List Char} (hne : run ≠ [])
    (hplain : ∀ c ∈ run, isBlank c = false ∧ c ≠ '"') (hquoted : scan.quoted = false) :
    tokensFrom scan (run ++ cs) = tokensFrom (scan.gather run) cs := by
  induction run generalizing scan with
  | nil => contradiction
  | cons c run ih =>
      simp only [List.forall_mem_cons] at hplain
      obtain ⟨⟨hblank, hquote⟩, hrest⟩ := hplain
      rw [List.cons_append, tokensFrom_plain hquote (by simp [hquoted, hblank]),
        ← scan.gather_singleton, scan.gather_cons]
      by_cases hlast : run = []
      · simp [hlast, Scan.gather_nil, Scan.gather_singleton]
      · exact ih hlast hrest hquoted

/-- In quotes the reader takes off what the writer put before quotes and backslashes. -/
theorem tokensFrom_escaped (content : List Char) (hquoted : scan.quoted = true)
    (hbegun : scan.begun = true) :
    tokensFrom scan (escaped content ++ cs) = tokensFrom (scan.gather content) cs := by
  induction content generalizing scan with
  | nil => simp [escaped, Scan.gather_nil hbegun]
  | cons c content ih =>
      have hfirst : tokensFrom scan (escaped (c :: content) ++ cs) =
          tokensFrom (scan.gather [c]) (escaped content ++ cs) := by
        by_cases hspecial : c = '"' ∨ c = '\\'
        · have hescaped : escaped (c :: content) = '\\' :: c :: escaped content := by
            simp [escaped, hspecial]
          rw [hescaped, List.cons_append, List.cons_append, tokensFrom_backslash hquoted,
            Scan.gather_singleton, hbegun]
        · have hescaped : escaped (c :: content) = c :: escaped content := by
            simp [escaped, hspecial]
          obtain ⟨hquote, hslash⟩ := not_or.mp hspecial
          rw [hescaped, List.cons_append, tokensFrom_plain hquote (by simp [hquoted, hslash]),
            Scan.gather_singleton]
      rw [hfirst, scan.gather_cons]
      exact ih hquoted rfl

theorem tokensFrom_segment (s : Segment) (hquoted : scan.quoted = false) :
    tokensFrom scan (s.text ++ cs) = tokensFrom (scan.gather s.content) cs := by
  cases s with
  | bare run hne hplain => exact tokensFrom_bare hne hplain hquoted
  | quoted content =>
      simp only [Segment.text, Segment.content, List.cons_append, List.append_assoc,
        List.nil_append]
      rw [tokensFrom_quote, tokensFrom_escaped content (by simp [hquoted]) rfl, tokensFrom_quote]
      simp [Scan.gather, hquoted]

theorem tokensFrom_segments {segments : List Segment} (hne : segments ≠ [])
    (hquoted : scan.quoted = false) :
    tokensFrom scan (segments.flatMap Segment.text ++ cs) =
      tokensFrom (scan.gather (segments.flatMap Segment.content)) cs := by
  induction segments generalizing scan with
  | nil => contradiction
  | cons s segments ih =>
      rw [List.flatMap_cons, List.flatMap_cons, List.append_assoc, tokensFrom_segment s hquoted,
        scan.gather_append]
      by_cases hlast : segments = []
      · simp [hlast, Scan.gather, Log.addAll]
      · exact ih hlast hquoted

/-- What is in quotes that are not closed is read up to the end of the line. -/
theorem tokensFrom_unclosed (content : List Char) (hquoted : scan.quoted = false) :
    tokensFrom scan ('"' :: escaped content) = [scan.token.toList ++ content] := by
  rw [tokensFrom_quote, ← List.append_nil (escaped content),
    tokensFrom_escaped content (by simp [hquoted]) rfl]
  simp [tokensFrom, Scan.gather]

/-- A token ends at a blank, or with the line. -/
theorem tokensFrom_end (hquoted : scan.quoted = false) (hbegun : scan.begun = true)
    (hcs : ∀ c ∈ cs.head?, isBlank c = true) :
    tokensFrom scan cs = scan.token.toList :: tokensFrom {} cs := by
  cases cs with
  | nil => simp [tokensFrom, hbegun]
  | cons c cs =>
      have hc : isBlank c = true := hcs c rfl
      simp [tokensFrom_blank scan hquoted hc, tokensFrom_blank {} rfl hc, hbegun]

end

/-! Whole lines. -/

theorem Holds.tokensFrom_eq {ts : List String} {cs : List Char} (h : Holds ts cs) :
    (tokensFrom {} cs).map String.ofList = ts := by
  induction h with
  | nil => rfl
  | blank hc _ ih => simpa [tokensFrom_blank {} rfl hc] using ih
  | token hne hcs _ ih =>
      rw [tokensFrom_segments hne rfl, tokensFrom_end rfl rfl hcs]
      simp [ih, Log.toList_empty]
  | unclosed segments content =>
      by_cases hnone : segments = []
      · simp [hnone, tokensFrom_unclosed]
      · rw [tokensFrom_segments hnone rfl, tokensFrom_unclosed content rfl]
        simp

/-- Tokens in quotes, with single spaces between them. -/
def quoteAll (ts : List String) : String :=
  " ".intercalate (ts.map fun t => String.ofList (Segment.quoted t.toList).text)

theorem Holds.quoted {ts : List String} {cs : List Char} (hcs : ∀ c ∈ cs.head?, isBlank c = true)
    (h : Holds ts cs) (t : String) : Holds (t :: ts) ((Segment.quoted t.toList).text ++ cs) := by
  have hone : [Segment.quoted t.toList] ≠ [] := List.cons_ne_nil _ _
  simpa [Segment.content] using Holds.token hone hcs h

theorem holds_quoteAll (ts : List String) : Holds ts (quoteAll ts).toList := by
  rw [quoteAll, String.toList_intercalate, List.map_map]
  induction ts with
  | nil => exact .nil
  | cons t ts ih =>
      cases ts with
      | nil => simpa using Holds.nil.quoted (by simp) t
      | cons u us =>
          have hspace : isBlank ' ' = true := by decide
          rw [List.map_cons, List.map_cons, List.intercalate_cons_cons, List.append_assoc]
          simpa [hspace] using (Holds.blank hspace ih).quoted (by simp [hspace]) t

/-- However tokens are written on a line, reading the line gives them back; and every list of
tokens can be written. -/
theorem tokens_undo_quoting :
    (∀ (ts : List String) (line : String), Holds ts line.toList → tokens line = ts) ∧
      ∀ ts : List String, Holds ts (quoteAll ts).toList ∧ tokens (quoteAll ts) = ts := by
  have hread : ∀ (ts : List String) (line : String), Holds ts line.toList → tokens line = ts :=
    fun ts line h => h.tokensFrom_eq
  refine ⟨hread, fun ts => ?_⟩
  exact ⟨holds_quoteAll ts, hread ts _ (holds_quoteAll ts)⟩

/-- Segments of both kinds in one token, an empty token, a backslash that is not in quotes, and
quotes that are not closed. -/
theorem tokens_undo_quoting_mixed :
    Holds ["ab cd", "", "\\x", "\"y\\"] "\ta\"b c\"d \"\" \\x  \"\\\"y\\\\".toList ∧
      tokens "\ta\"b c\"d \"\" \\x  \"\\\"y\\\\" = ["ab cd", "", "\\x", "\"y\\"] := by
  have hplain {run : List Char} (h : run.all (fun c => !isBlank c && c != '"') = true) :
      ∀ c ∈ run, isBlank c = false ∧ c ≠ '"' := by
    simpa using h
  have hhead {cs : List Char} (h : cs.head?.all isBlank = true) :
      ∀ c ∈ cs.head?, isBlank c = true := fun c hc => by
    rwa [Option.mem_def.mp hc] at h
  have hspace : isBlank ' ' = true := by decide
  have hunclosed : Holds ["\"y\\"] "\"\\\"y\\\\".toList := .unclosed [] "\"y\\".toList
  have hslash : Holds ["\\x", "\"y\\"] "\\x  \"\\\"y\\\\".toList := by
    let slash : Segment := .bare "\\x".toList (by decide) (hplain (by decide))
    exact .token (List.cons_ne_nil slash []) (hhead (by decide))
      (.blank hspace (.blank hspace hunclosed))
  have hempty : Holds ["", "\\x", "\"y\\"] "\"\" \\x  \"\\\"y\\\\".toList :=
    (Holds.blank hspace hslash).quoted (hhead (by decide)) ""
  have hline : Holds ["ab cd", "", "\\x", "\"y\\"]
      "\ta\"b c\"d \"\" \\x  \"\\\"y\\\\".toList := by
    let first : List Segment := [.bare ['a'] (by decide) (hplain (by decide)),
      .quoted "b c".toList, .bare ['d'] (by decide) (hplain (by decide))]
    have hfirst : first ≠ [] := List.cons_ne_nil _ _
    exact .blank (by decide) (.token hfirst (hhead (by decide)) (.blank hspace hempty))
  exact ⟨hline, tokens_undo_quoting.1 _ _ hline⟩

end RemoteConsole.Text
