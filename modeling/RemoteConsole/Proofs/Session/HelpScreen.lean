/-
The help screen.  Each command has a block of rows, its name in a column on the left, as wide
as the longest name, and its texts in a column on the right; and nothing else is on the screen.
-/
import RemoteConsole.Proofs.Session.LongestName
import RemoteConsole.Proofs.Text.Lines
import RemoteConsole.Session.Help

namespace RemoteConsole.Session

variable {H : Type}

/-- The texts of a command: the lines of its help, and then those of its usage, the first of
them after the usage lead and the name. -/
inductive Texts (lead name : String) (entry : Entry H) : List String → Prop where
  | help {help : List String} (hhelp : Text.Lined help entry.help.toList)
      (husage : Text.Lined [] entry.usage.toList) : Texts lead name entry help
  | usage {help usage : List String} {first : String}
      (hhelp : Text.Lined help entry.help.toList)
      (husage : Text.Lined (first :: usage) entry.usage.toList) :
      Texts lead name entry (help ++ (lead ++ name ++ " " ++ first) :: usage)

/-- A row: what stands on the left, spaces up to a column three characters beyond the width,
and from that column on a text. -/
structure Row (width : Nat) (left text row : String) : Prop where
  left_le : left.length ≤ width
  left_eq : row.toList.take (width + 3) =
    left.toList ++ List.replicate (width + 3 - left.length) ' '
  text_eq : row.toList.drop (width + 3) = text.toList

/-- The rows of a command: the first text stands beside the name, and each other one in a row
of its own.  A name without texts is padded to the width. -/
inductive Block (width : Nat) (name : String) : List String → List String → Prop where
  | bare {row : String} (hname : name.length ≤ width)
      (hrow : row.toList = name.toList ++ List.replicate (width - name.length) ' ') :
      Block width name [] [row]
  | texts {text row : String} {texts rows : List String} (hfirst : Row width name text row)
      (hrest : List.Forall₂ (Row width "") texts rows) :
      Block width name (text :: texts) (row :: rows)

/-- What stands on the help screen, command by command in the order of the bytes of their names:
the commands that are known, each once, with their rows.  The width is the number of bytes of
the longest name. -/
structure Shows (d : Dictionary H) (lead : String) (width : Nat)
    (commands : List (CommandName × Entry H)) (blocks : List (List String)) : Prop where
  increasing : commands.Pairwise fun a b =>
    Text.octets a.1.spelling < Text.octets b.1.spelling
  complete : ∀ name entry, (name, entry) ∈ commands ↔ d.find name = some entry
  width_ge : ∀ c ∈ commands, (Text.octets c.1.spelling).length ≤ width
  width_attained : commands = [] ∧ width = 0 ∨
    ∃ c ∈ commands, (Text.octets c.1.spelling).length = width
  laid : List.Forall₂ (fun c rows => ∃ texts,
    Texts lead c.1.spelling c.2 texts ∧ Block width c.1.spelling texts rows) commands blocks
  unbroken : ∀ rows ∈ blocks, ∀ row ∈ rows, '\n' ∉ row.toList

/-! The texts of a command. -/

theorem texts_textLines (entry : Entry H) (config : Config) (name : String) :
    Texts config.usageLead name entry (entry.textLines config name) := by
  have hhelp := Text.lined_lines entry.help
  have husage := Text.lined_lines entry.usage
  unfold Entry.textLines
  generalize Text.lines entry.usage = usage at husage
  cases usage with
  | nil =>
      rw [List.append_nil]
      exact .help hhelp husage
  | cons first usage => exact .usage hhelp husage

theorem Texts.not_mem {lead name : String} {entry : Entry H} {texts : List String}
    (h : Texts lead name entry texts) (hlead : '\n' ∉ lead.toList) (hname : '\n' ∉ name.toList)
    {text : String} (htext : text ∈ texts) : '\n' ∉ text.toList := by
  cases h with
  | help hhelp husage => exact hhelp.not_mem htext
  | @usage help usage first hhelp husage =>
      rcases List.mem_append.mp htext with htext | htext
      · exact hhelp.not_mem htext
      · rcases List.mem_cons.mp htext with rfl | htext
        · have hfirst := husage.not_mem List.mem_cons_self
          simp [hlead, hname, hfirst]
        · exact husage.not_mem (List.mem_cons_of_mem _ htext)

/-! The rows of a block. -/

namespace Registry

/-- The rows that make up a block. -/
def blockRows (width : Nat) (name : String) : List String → List String
  | [] => [padded name width]
  | text :: texts =>
      (padded name width ++ (spaces gap ++ text)) ::
        texts.map fun text => spaces (width + gap) ++ text

theorem join_rows (row : String) (f : String → String) (texts : List String) :
    row ++ String.join (texts.map fun text => "\n" ++ f text) ++ "\n" =
      String.join ((row :: texts.map f).map (· ++ "\n")) := by
  induction texts generalizing row with
  | nil => simp [String.join_cons]
  | cons text texts ih =>
      have hrest := ih (f text)
      simp only [List.map_cons, String.join_cons] at hrest ⊢
      rw [← hrest]
      simp only [String.append_assoc]

theorem block_eq (width : Nat) (name : String) (texts : List String) :
    block width name texts = String.join ((blockRows width name texts).map (· ++ "\n")) := by
  cases texts with
  | nil => simp [block, blockRows, String.join_cons]
  | cons text texts =>
      rw [blockRows, ← join_rows]
      simp only [block, String.append_assoc]

@[simp] theorem toList_spaces (n : Nat) : (spaces n).toList = List.replicate n ' ' := by
  simp [spaces]

theorem row_of_toList {width : Nat} {left text row : String} (hleft : left.length ≤ width)
    (hrow : row.toList =
      left.toList ++ List.replicate (width + 3 - left.length) ' ' ++ text.toList) :
    Row width left text row := by
  have hlength : (left.toList ++ List.replicate (width + 3 - left.length) ' ').length =
      width + 3 := by
    rw [List.length_append, List.length_replicate, String.length_toList]
    omega
  refine ⟨hleft, ?_, ?_⟩
  · rw [hrow, List.take_left' hlength]
  · rw [hrow, List.drop_left' hlength]

theorem block_blockRows {width : Nat} {name : String} (hname : name.length ≤ width)
    (texts : List String) : Block width name texts (blockRows width name texts) := by
  have hpadded : (padded name width).toList =
      name.toList ++ List.replicate (width - name.length) ' ' := by
    simp [padded]
  cases texts with
  | nil => exact .bare hname hpadded
  | cons text texts =>
      refine .texts (row_of_toList hname ?_) ?_
      · have hgap : width + 3 - name.length = width - name.length + gap := by
          unfold gap
          omega
        rw [String.toList_append, String.toList_append, hpadded, toList_spaces, hgap,
          List.replicate_append_replicate.symm]
        simp only [List.append_assoc]
      · rw [List.forall₂_map_right_iff]
        exact List.forall₂_same.mpr fun text _ => row_of_toList (Nat.zero_le _) (by simp [gap])

theorem not_mem_blockRows {width : Nat} {name : String} {texts : List String}
    (hname : '\n' ∉ name.toList) (htexts : ∀ text ∈ texts, '\n' ∉ text.toList) :
    ∀ row ∈ blockRows width name texts, '\n' ∉ row.toList := by
  cases texts with
  | nil => simp [blockRows, padded, hname]
  | cons text texts =>
      obtain ⟨htext, htexts⟩ := List.forall_mem_cons.mp htexts
      refine List.forall_mem_cons.mpr ⟨?_, ?_⟩
      · simp [padded, hname, htext]
      · intro row hrow
        obtain ⟨text, hmem, rfl⟩ := List.mem_map.mp hrow
        simp [htexts text hmem]

/-! The width. -/

theorem nameWidth_cases (r : Registry H) :
    (∀ e ∈ r.entries, (Text.octets e.1).length ≤ r.nameWidth) ∧
      (r.entries = [] ∧ r.nameWidth = 0 ∨
        ∃ e ∈ r.entries, (Text.octets e.1).length = r.nameWidth) := by
  simp only [Text.length_octets, nameWidth, List.foldl_max]
  generalize hsizes : r.entries.map (fun e => e.1.utf8ByteSize) = sizes
  cases hmax : sizes.max? with
  | none =>
      have hnil : r.entries = [] := by
        rwa [List.max?_eq_none_iff, ← hsizes, List.map_eq_nil_iff] at hmax
      simp [hnil]
  | some width =>
      obtain ⟨hmem, hle⟩ := List.max?_eq_some_iff.mp hmax
      rw [← hsizes, List.mem_map] at hmem
      rw [← hsizes, List.forall_mem_map] at hle
      rw [Option.getD_some, Nat.zero_max]
      exact ⟨hle, .inr hmem⟩

end Registry

/-! The commands. -/

theorem CommandName.not_mem_spelling (n : CommandName) : '\n' ∉ n.spelling.toList := by
  obtain ⟨words, -, hwords⟩ := n
  rw [spelling, String.toList_intercalate]
  dsimp only
  clear * - hwords
  induction words with
  | nil => exact List.not_mem_nil
  | cons w ws ih =>
      obtain ⟨hw, hwords⟩ := List.forall_mem_cons.mp hwords
      have hfirst : '\n' ∉ w.toList := fun hmem => absurd (hw.2 _ hmem) (by decide)
      cases ws with
      | nil => simpa using hfirst
      | cons w' ws =>
          have hrest := ih hwords
          rw [List.map_cons] at hrest
          rw [List.map_cons, List.map_cons, List.intercalate_cons_cons]
          simp only [List.mem_append, not_or]
          exact ⟨⟨hfirst, by decide⟩, hrest⟩

namespace Registry

variable {r : Registry H} {d : Dictionary H}

/-- The rows of every command, in order. -/
def helpBlocks (d : Dictionary H) (config : Config) (width : Nat) : List (List String) :=
  d.commands.map fun c => blockRows width c.1.spelling (c.2.textLines config c.1.spelling)

theorem Agrees.helpScreen_eq (h : r.Agrees d) (config : Config) :
    r.helpScreen config = config.helpPreamble ++ "\n" ++
      String.join ((helpBlocks d config r.nameWidth).flatten.map (· ++ "\n")) := by
  have hjoin : ∀ blocks : List (List String),
      String.join (blocks.map fun rows => String.join (rows.map (· ++ "\n"))) =
        String.join (blocks.flatten.map (· ++ "\n")) := by
    intro blocks
    induction blocks with
    | nil => rfl
    | cons rows blocks ih =>
        rw [List.map_cons, String.join_cons, ih, List.flatten_cons, List.map_append,
          String.join_append]
  rw [helpScreen, h.entries_eq, d.entries_eq_commands, ← hjoin, helpBlocks, List.map_map,
    List.map_map]
  simp only [block_eq]
  rfl

theorem Agrees.shows (h : r.Agrees d) {config : Config} (hlead : '\n' ∉ config.usageLead.toList) :
    Shows d config.usageLead r.nameWidth d.commands (helpBlocks d config r.nameWidth) := by
  obtain ⟨hle, hattained⟩ := r.nameWidth_cases
  rw [h.entries_eq, d.entries_eq_commands] at hle hattained
  rw [List.forall_mem_map] at hle
  refine ⟨d.increasing_commands, fun n entry => Dictionary.mem_commands, hle, ?_, ?_, ?_⟩
  · simpa only [List.map_eq_nil_iff, List.mem_map, exists_exists_and_eq_and] using hattained
  · rw [helpBlocks, List.forall₂_map_right_iff, List.forall₂_same]
    intro c hc
    have hname : c.1.spelling.length ≤ r.nameWidth :=
      (Text.length_le_length_octets _).trans (hle c hc)
    exact ⟨_, texts_textLines c.2 config c.1.spelling, block_blockRows hname _⟩
  · rw [helpBlocks, List.forall_mem_map]
    intro c _
    have hname := c.1.not_mem_spelling
    have htexts := texts_textLines c.2 config c.1.spelling
    exact not_mem_blockRows hname fun text => htexts.not_mem hlead hname

/-- However commands were registered and removed: the help screen is the preamble, and then for
each command that is known, in the order of the bytes of their names, its block of rows, each
row on a line of its own. -/
theorem helpScreen_shows {config : Config} (hlead : '\n' ∉ config.usageLead.toList)
    (calls : List (Call H)) :
    ∃ width commands blocks,
      Shows (Dictionary.empty.after calls) config.usageLead width commands blocks ∧
      (({} : Registry H).after calls).helpScreen config = config.helpPreamble ++ "\n" ++
        String.join (blocks.flatten.map (· ++ "\n")) := by
  have hagrees := (agrees_empty (H := H)).after calls
  exact ⟨_, _, _, hagrees.shows hlead, hagrees.helpScreen_eq config⟩

/-- A name of fewer characters than bytes, one without texts, and one that is removed again. -/
theorem helpScreen_shows_some :
    let config : Config := { helpPreamble := "Commands:" }
    let calls : List (Call Unit) :=
      [.register "show  version" ⟨(), "Show version\r\nand build", ""⟩,
        .register "quit\nls" ⟨(), "List things", "[dir]"⟩, .register "über uns" ⟨(), "", ""⟩,
        .remove "quit"]
    let screen := (({} : Registry Unit).after calls).helpScreen config
    '\n' ∉ config.usageLead.toList ∧
      (∃ width commands blocks,
        Shows (Dictionary.empty.after calls) config.usageLead width commands blocks ∧
        screen = config.helpPreamble ++ "\n" ++
          String.join (blocks.flatten.map (· ++ "\n"))) ∧
      screen =
        "Commands:\n" ++
        "ls             List things\n" ++
        "               Usage: ls [dir]\n" ++
        "show version   Show version\n" ++
        "               and build\n" ++
        "über uns    \n" := by
  intro config calls screen
  have hlead : '\n' ∉ config.usageLead.toList := by decide
  exact ⟨hlead, helpScreen_shows hlead calls, by decide +kernel⟩

end Registry

end RemoteConsole.Session
