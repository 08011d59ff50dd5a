/-
Blank characters, and the two readings of text that rest on them: trimming
and cutting into words.  A word is a maximal run of characters that are not
blank, so `words` never yields an empty word and forgets how words were spaced.
-/
namespace RemoteConsole.Text

/-- The Unicode property White_Space. -/
def isBlank (c : Char) : Bool :=
  (0x9 ≤ c.val && c.val ≤ 0xd) || c.val = 0x20 || c.val = 0x85 || c.val = 0xa0 ||
    c.val = 0x1680 || (0x2000 ≤ c.val && c.val ≤ 0x200a) || c.val = 0x2028 ||
    c.val = 0x2029 || c.val = 0x202f || c.val = 0x205f || c.val = 0x3000

/-- Every blank that the core library knows is a blank here. -/
theorem isBlank_of_isWhitespace {c : Char} (h : c.isWhitespace = true) :
    isBlank c = true := by
  simp only [Char.isWhitespace, Bool.or_eq_true, decide_eq_true_eq] at h
  rcases h with ((rfl | rfl) | rfl) | rfl <;> decide

/-- Cut a text at every character that satisfies `sep`.  Two separators in a
row leave an empty piece between them, and there is always at least one piece. -/
def pieces (sep : Char → Bool) : List Char → List (List Char)
  | [] => [[]]
  | c :: cs =>
      if sep c then [] :: pieces sep cs
      else
        match pieces sep cs with
        | [] => [[c]]
        | p :: ps => (c :: p) :: ps

theorem pieces_ne_nil (sep : Char → Bool) (cs : List Char) : pieces sep cs ≠ [] := by
  cases cs with
  | nil => simp [pieces]
  | cons c cs =>
      by_cases h : sep c
      · simp [pieces, h]
      · cases hp : pieces sep cs <;> simp [pieces, h, hp]

/-- No piece holds a separator. -/
theorem not_sep_of_mem_pieces {sep : Char → Bool} {cs p : List Char}
    (hp : p ∈ pieces sep cs) : ∀ c ∈ p, sep c = false := by
  induction cs generalizing p with
  | nil => simp [pieces] at hp; simp [hp]
  | cons d cs ih =>
      by_cases h : sep d
      · simp only [pieces, h, ↓reduceIte, List.mem_cons] at hp
        rcases hp with rfl | hp
        · simp
        · exact ih hp
      · cases hq : pieces sep cs with
        | nil => exact absurd hq (pieces_ne_nil sep cs)
        | cons q qs =>
            simp [pieces, h, hq] at hp
            rcases hp with rfl | hp
            · intro c hc
              simp only [List.mem_cons] at hc
              rcases hc with rfl | hc
              · simpa using h
              · exact ih (hq ▸ List.mem_cons_self) c hc
            · exact ih (hq ▸ List.mem_cons_of_mem q hp)

/-- The words of a text, in order. -/
def words (text : String) : List String :=
  ((pieces isBlank text.toList).filter fun piece => !piece.isEmpty).map String.ofList

/-- Drop the blanks at both ends. -/
def trim (text : String) : String :=
  String.ofList
    ((text.toList.dropWhile isBlank).reverse.dropWhile isBlank).reverse

/-- One spelling for each list of words: the words with single spaces between
them. -/
def normalize (name : String) : String :=
  " ".intercalate (words name)

end RemoteConsole.Text
