/-
What a user sees.  The bytes that a session sends back keep the line on the screen the same as
the line that is typed, and never erase what stood there before it.
-/
import RemoteConsole.Proofs.Session.Login

namespace RemoteConsole.Session

/-! Lines as stacks, and on the screen. -/

/-- A byte is put on the line or takes the last one off. -/
def strike (c : Config) (cells : List UInt8) (b : UInt8) : List UInt8 :=
  if b ∈ Text.encode c.editCharacters then cells.dropLast
  else if 0x20 ≤ b ∧ b < 0x7f then cells ++ [b]
  else cells

/-- What a line on the screen looks like once bytes are sent to it.  A printable byte fills the
next cell; a way back, a space and a way back again clear the last one.  Nothing else may be
sent, and nothing to the left of the line be cleared. -/
def screen (cells : List UInt8) : List UInt8 → Option (List UInt8)
  | [] => some cells
  | 0x08 :: 0x20 :: 0x08 :: rest => if cells = [] then none else screen cells.dropLast rest
  | b :: rest => if 0x20 ≤ b ∧ b < 0x7f then screen (cells ++ [b]) rest else none

theorem screen_erase {cells : List UInt8} (hcells : cells ≠ []) (more : List UInt8) :
    screen cells (0x08 :: 0x20 :: 0x08 :: more) = screen cells.dropLast more := by
  rw [screen, if_neg hcells]

theorem screen_show (cells : List UInt8) {b : UInt8} (hb : 0x20 ≤ b ∧ b < 0x7f)
    (more : List UInt8) : screen cells (b :: more) = screen (cells ++ [b]) more := by
  have hback : b ≠ 0x08 := by
    rintro rfl
    exact absurd hb.1 (by decide)
  rw [screen, if_pos hb]
  exact fun _ h => absurd h hback

/-- What is sent later finds the line as it was left. -/
theorem screen_append {cells shown sent : List UInt8} (h : screen cells sent = some shown)
    (more : List UInt8) : screen cells (sent ++ more) = screen shown more := by
  fun_induction screen cells sent with
  | case1 cells =>
      cases h
      rfl
  | case2 rest => cases h
  | case3 cells rest hcells ih => exact (screen_erase hcells _).trans (ih h)
  | case4 cells b rest _ hb ih => exact (screen_show cells hb _).trans (ih h)
  | case5 cells b rest _ hb => cases h

/-! Keys. -/

/-- The line typed so far holds these cells. -/
def State.Holds (s : State) (cells : List UInt8) : Prop :=
  s.typed.toList = cells.map fun b => Char.ofNat b.toNat

section

variable {s : State} {cells : List UInt8}

theorem isPrintable_iff {b : UInt8} : isPrintable b = true ↔ 0x20 ≤ b ∧ b < 0x7f := by
  simp [isPrintable]

theorem isEdit_iff {c : Config} {b : UInt8} :
    c.isEdit b = true ↔ b ∈ Text.encode c.editCharacters := by
  simp [Config.isEdit]

theorem State.Holds.isEmpty_iff (h : s.Holds cells) : s.typed.isEmpty = true ↔ cells = [] := by
  have hlist : s.typed.isEmpty = true ↔ s.typed.toList = [] := by
    simp [Log.isEmpty, Log.toList]
  rw [hlist, h, List.map_eq_nil_iff]

/-- A key does to the screen what it does to the line. -/
theorem State.Holds.edit (h : s.Holds cells) (c : Config) (b : UInt8) :
    (s.edit c b).1.Holds (strike c cells b) ∧
      screen cells (s.edit c b).2.bytes = some (strike c cells b) := by
  unfold State.edit strike
  dsimp only
  by_cases hedit : b ∈ Text.encode c.editCharacters
  · rw [if_pos (isEdit_iff.mpr hedit), if_pos hedit]
    by_cases hcells : cells = []
    · rw [if_pos (h.isEmpty_iff.mpr hcells)]
      subst hcells
      exact ⟨h, rfl⟩
    · rw [if_neg fun hempty => hcells (h.isEmpty_iff.mp hempty)]
      refine ⟨?_, screen_erase hcells []⟩
      rw [State.Holds, Log.toList_dropNewest, h, List.map_dropLast]
  · rw [if_neg fun h => hedit (isEdit_iff.mp h), if_neg hedit]
    by_cases hprint : 0x20 ≤ b ∧ b < 0x7f
    · rw [if_pos (isPrintable_iff.mpr hprint), if_pos hprint]
      refine ⟨?_, screen_show cells hprint []⟩
      rw [State.Holds, Log.toList_add, h, List.map_append]
      rfl
    · rw [if_neg fun h => hprint (isPrintable_iff.mp h), if_neg hprint]
      exact ⟨h, rfl⟩

end

/-- Bytes that are struck one after the other leave nothing on the line but printable ones. -/
theorem printable_foldl_strike (c : Config) (bytes : List UInt8) {cells : List UInt8}
    (hcells : ∀ b ∈ cells, 0x20 ≤ b ∧ b < 0x7f) :
    ∀ b ∈ bytes.foldl (strike c) cells, 0x20 ≤ b ∧ b < 0x7f := by
  induction bytes generalizing cells with
  | nil => exact hcells
  | cons byte rest ih =>
      refine ih fun b hb => ?_
      unfold strike at hb
      split_ifs at hb with hedit hprint
      · exact hcells b (List.dropLast_subset cells hb)
      · rcases List.mem_append.mp hb with hb | hb
        · exact hcells b hb
        · exact List.mem_singleton.mp hb ▸ hprint
      · exact hcells b hb

/-! Sessions. -/

variable {ρ : Type}

theorem State.requireEcho_edit (s : State) (c : Config) (b : UInt8) :
    (s.edit c b).1.requireEcho = s.requireEcho := by
  simp only [State.edit]
  split_ifs <;> rfl

theorem State.showsTyping_edit (s : State) (c : Config) (b : UInt8) :
    (s.edit c b).1.showsTyping = s.showsTyping := by
  rw [State.showsTyping, State.showsTyping, s.stage_edit, s.requireEcho_edit]

/-- A byte that ends no line is taken into the memory, and only what shows it is sent back. -/
theorem press_run (base : Host (Around ρ)) {b : UInt8} (hb : isLineEnd b = false)
    (s : Sitting ρ) :
    ∃ result w sent, (press base.seated b).run s =
        ⟨result, ⟨(s.state.edit base.config b).1, w⟩, sent⟩ ∧
      if s.state.showsTyping then
        (∀ d ∈ sent, ∃ bytes, d = .wrote bytes) ∧
          written sent = (s.state.edit base.config b).2.bytes
      else sent = [] := by
  have hrun := pressKey_run base base.seated.itself b s
  rw [State.key, if_neg (by rw [hb]; exact Bool.false_ne_true), State.shown] at hrun
  dsimp only at hrun
  cases hshows : s.state.showsTyping with
  | false =>
      rw [hshows, if_neg fun h => h.2 rfl] at hrun
      exact ⟨_, _, [], hrun, rfl⟩
  | true =>
      rw [hshows, if_pos rfl] at hrun
      by_cases hecho : (s.state.edit base.config b).2 = .none
      · rw [if_neg fun h => h.2 hecho] at hrun
        exact ⟨_, _, [], hrun, by simp, by rw [hecho]; rfl⟩
      · obtain ⟨result, w, hsend⟩ := sendBytes_run base (s.state.edit base.config b).2.bytes
          ⟨(s.state.edit base.config b).1, s.world⟩
        rw [if_pos ⟨hb, hecho⟩, hsend] at hrun
        exact ⟨result, w, _, hrun, by simp, by simp [written]⟩

/-- Bytes that end no line, one after the other. -/
theorem holds_typeAll (base : Host (Around ρ)) {bytes : List UInt8}
    (hbytes : ∀ b ∈ bytes, isLineEnd b = false) {s : Sitting ρ} {cells : List UInt8}
    (hcells : s.state.Holds cells) :
    let after := bytes.foldl (strike base.config) cells
    let run := typeAll base.seated bytes s
    run.state.state.Holds after ∧
      if s.state.showsTyping then
        (∀ d ∈ run.deeds, ∃ bytes, d = .wrote bytes) ∧ screen cells (written run.deeds) = some after
      else run.deeds = [] := by
  induction bytes generalizing s cells with
  | nil =>
      refine ⟨hcells, ?_⟩
      split
      · exact ⟨fun _ hd => (List.not_mem_nil hd).elim, rfl⟩
      · rfl
  | cons b rest ih =>
      obtain ⟨hb, hrest⟩ := List.forall_mem_cons.mp hbytes
      obtain ⟨result, w, sent, hpress, hsent⟩ := press_run base hb s
      obtain ⟨hedited, hscreen⟩ := hcells.edit base.config b
      obtain ⟨hholds, hlater⟩ := ih hrest (s := ⟨(s.state.edit base.config b).1, w⟩) hedited
      have hrun : typeAll base.seated (b :: rest) s =
          let later := typeAll base.seated rest ⟨(s.state.edit base.config b).1, w⟩
          { later with deeds := sent ++ later.deeds } := by
        rw [typeAll, Recorded.bind_run, hpress]
      intro after run
      have hrun : run = _ := hrun
      rw [hrun]
      refine ⟨hholds, ?_⟩
      rw [State.showsTyping_edit] at hlater
      dsimp only
      split_ifs at hsent hlater ⊢ with hshows
      · refine ⟨List.forall_mem_append.mpr ⟨hsent.1, hlater.1⟩, ?_⟩
        rw [written_append, hsent.2, screen_append hscreen]
        exact hlater.2
      · rw [hsent, hlater]
        rfl

/-- What a user sees of the line is what will be submitted.  Bytes that end no line act on it as
on a stack of printable bytes; if typing is shown, what is sent back makes the line on the screen
the same, never clearing anything before it; if not, nothing is sent. -/
theorem screen_shows_line (base : Host (Around ρ)) {s : Sitting ρ} (hempty : s.state.line = "")
    {bytes : List UInt8} (hbytes : ∀ b ∈ bytes, b ≠ 13 ∧ b ≠ 10) :
    let cells := bytes.foldl (strike base.config) []
    let run := typeAll base.seated bytes s
    run.state.state.line = String.ofList (cells.map fun b => Char.ofNat b.toNat) ∧
      (∀ b ∈ cells, 0x20 ≤ b ∧ b < 0x7f) ∧
      (s.state.requireEcho = true → s.state.stage ≠ .password →
        (∀ d ∈ run.deeds, ∃ bytes, d = .wrote bytes) ∧
          screen [] (written run.deeds) = some cells) ∧
      (s.state.requireEcho = false → run.deeds = []) := by
  have hstart : s.state.Holds [] := by
    have hnil := congrArg String.toList hempty
    rwa [State.line, String.toList_ofList, String.toList_empty] at hnil
  have hends : ∀ b ∈ bytes, isLineEnd b = false := fun b hb => by
    simp [isLineEnd, hbytes b hb]
  obtain ⟨hholds, hdeeds⟩ := holds_typeAll base hends hstart
  refine ⟨?_, printable_foldl_strike _ _ (by simp), fun hecho hstage => ?_, fun hecho => ?_⟩
  · rw [State.line, hholds]
  · rwa [if_pos (by simp [State.showsTyping, hecho, hstage])] at hdeeds
  · rwa [if_neg (by simp [State.showsTyping, hecho])] at hdeeds

/-- A session whose user sees what is typed.  A letter erases, and so does each byte of a longer
character. -/
def mirror : Desk :=
  .initial ⟨1⟩ { editCharacters := "\x08x\u00e9", requireEcho := true } {} none {}

/-- Erasing what is there and what is not, by control bytes, a letter and half a character. -/
def keys : List UInt8 :=
  [0x08, 0x61, 0x62, 0x78, 0x01, 0x20, 0x63, 0xc3, 0x78, 0x78, 0x78, 0x64, 0x7f, 0xff]

theorem screen_shows_line_mirror :
    let s : Sitting Desk := ⟨.initial mirror.around.config, mirror⟩
    let run := typeAll mirror.around.seated keys s
    run.state.state.line = "d" ∧ screen [] (written run.deeds) = some [0x64] := by
  intro s run
  have hempty : s.state.line = "" := by decide +kernel
  have hkeys : ∀ b ∈ keys, b ≠ 13 ∧ b ≠ 10 := by decide +kernel
  obtain ⟨hline, -, hshown, -⟩ := screen_shows_line mirror.around hempty hkeys
  have hcells : keys.foldl (strike mirror.around.config) [] = [0x64] := by decide +kernel
  rw [hcells] at hline hshown
  exact ⟨hline, (hshown rfl (by decide)).2⟩

end RemoteConsole.Session
