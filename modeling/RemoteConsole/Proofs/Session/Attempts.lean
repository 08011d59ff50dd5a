/-
What typing amounts to before a login: bytes make up lines, and lines make up attempts to
log in, in one of three ways.
-/
import Mathlib.Tactic.Common
import RemoteConsole.Session.State

namespace RemoteConsole.Session

/-- What a byte does to the line: the line, if the byte ends it. -/
def State.key (s : State) (c : Config) (b : UInt8) : State × Option String :=
  if isLineEnd b then s.endLine else ((s.edit c b).1, none)

/-- The lines that bytes make up. -/
def State.typedLines (s : State) (c : Config) : List UInt8 → List String
  | [] => []
  | b :: rest => (s.key c b).2.toList ++ (s.key c b).1.typedLines c rest

/-- Neighbours two by two. -/
def pairs {α : Type} : List α → List (α × α)
  | a :: b :: rest => (a, b) :: pairs rest
  | _ => []

namespace Config

/-- The user names and passwords that lines stand for. -/
def attempts (c : Config) (lines : List String) : List (String × String) :=
  if c.username = "" then lines.map fun line => ("", line)
  else if c.password = "" then lines.map fun line => (line, "")
  else pairs lines

/-- The stage after a number of lines of which none has let anyone in. -/
def stageAfter (c : Config) (count : Nat) : Stage :=
  if c.username ≠ "" ∧ c.password ≠ "" ∧ count % 2 = 1 then .password else c.initialStage

/-- What a line is to a login, after a user name or not: the attempt it completes, and the
user name that is known then. -/
def hear (c : Config) (name : Option String) (line : String) :
    Option (String × String) × Option String :=
  match name with
  | some username => (some (username, line), none)
  | none =>
      if c.username = "" then (some ("", line), none)
      else if c.password = "" then (some (line, ""), none)
      else (none, some line)

/-- The attempts that lines complete, after a user name or not. -/
def attemptsFrom (c : Config) (name : Option String) : List String → List (String × String)
  | [] => []
  | line :: rest => (c.hear name line).1.toList ++ c.attemptsFrom (c.hear name line).2 rest

/-- The user name that is known after lines. -/
def nameAfter (c : Config) (name : Option String) : List String → Option String
  | [] => name
  | line :: rest => c.nameAfter (c.hear name line).2 rest

theorem attemptsFrom_append (c : Config) (name : Option String) (lines more : List String) :
    c.attemptsFrom name (lines ++ more) =
      c.attemptsFrom name lines ++ c.attemptsFrom (c.nameAfter name lines) more := by
  induction lines generalizing name with
  | nil => rfl
  | cons line rest ih =>
      simp only [List.cons_append, attemptsFrom, nameAfter, ih, List.append_assoc]

theorem nameAfter_append (c : Config) (name : Option String) (lines more : List String) :
    c.nameAfter name (lines ++ more) = c.nameAfter (c.nameAfter name lines) more := by
  induction lines generalizing name with
  | nil => rfl
  | cons line rest ih => simp only [List.cons_append, nameAfter, ih]

theorem attemptsFrom_none (c : Config) (lines : List String) :
    c.attemptsFrom none lines = c.attempts lines := by
  unfold attempts
  split_ifs with husername hpassword
  · induction lines with
    | nil => rfl
    | cons line rest ih => simp [attemptsFrom, hear, husername, ih]
  · induction lines with
    | nil => rfl
    | cons line rest ih => simp [attemptsFrom, hear, husername, hpassword, ih]
  · fun_induction pairs lines with
    | case1 name password rest ih => simp [attemptsFrom, hear, husername, hpassword, ih]
    | case2 lines hshort =>
        rcases lines with _ | ⟨name, _ | ⟨password, rest⟩⟩
        · rfl
        · simp [attemptsFrom, hear, husername, hpassword]
        · exact (hshort name password rest rfl).elim

/-- A user name is known only where a password is to follow, after every other line. -/
theorem isSome_nameAfter_none (c : Config) (lines : List String) :
    (c.nameAfter none lines).isSome ↔
      c.username ≠ "" ∧ c.password ≠ "" ∧ lines.length % 2 = 1 := by
  by_cases hsingle : c.username = "" ∨ c.password = ""
  · have hnone : c.nameAfter none lines = none := by
      induction lines with
      | nil => rfl
      | cons line rest ih =>
          have hhear : (c.hear none line).2 = none := by
            rcases hsingle with h | h <;> simp only [hear, h] <;> split_ifs <;> rfl
          rw [nameAfter, hhear, ih]
    rcases hsingle with h | h <;> simp [hnone, h]
  · obtain ⟨husername, hpassword⟩ := not_or.mp hsingle
    simp only [ne_eq, husername, hpassword, not_false_eq_true, true_and]
    fun_induction pairs lines with
    | case1 name password rest ih =>
        have hlength : (name :: password :: rest).length % 2 = rest.length % 2 := by
          rw [List.length_cons, List.length_cons]
          omega
        rw [hlength]
        simpa [nameAfter, hear, husername, hpassword] using ih
    | case2 lines hshort =>
        rcases lines with _ | ⟨name, _ | ⟨password, rest⟩⟩
        · simp [nameAfter]
        · simp [nameAfter, hear, husername, hpassword]
        · exact (hshort name password rest rfl).elim

end Config

/-! A session before a login. -/

/-- The stage and the user name of a session that no one has logged in to. -/
def State.AtLogin (s : State) (c : Config) : Option String → Prop
  | none => s.stage = c.initialStage ∧ s.username = ""
  | some name => s.stage = .password ∧ s.username = name ∧ c.username ≠ "" ∧ c.password ≠ ""

theorem Config.isLogin_initialStage {c : Config} (hasks : c.username ≠ "" ∨ c.password ≠ "") :
    c.initialStage.isLogin = true := by
  unfold Config.initialStage
  rcases hasks with h | h <;> simp only [h, ne_eq, not_false_eq_true, ↓reduceIte]
  · rfl
  · split <;> rfl

theorem State.AtLogin.isLogin {s : State} {c : Config} {name : Option String}
    (h : s.AtLogin c name) (hasks : c.username ≠ "" ∨ c.password ≠ "") :
    s.stage.isLogin = true := by
  cases name with
  | none => rw [h.1, Config.isLogin_initialStage hasks]
  | some username => rw [h.1]; rfl

/-- A byte by itself logs no one in. -/
theorem State.AtLogin.key {s : State} {c : Config} {name : Option String}
    (h : s.AtLogin c name) (b : UInt8) :
    (s.key c b).1.AtLogin c name ∧ (s.key c b).1.history = s.history := by
  have hframe : (s.key c b).1.stage = s.stage ∧ (s.key c b).1.username = s.username ∧
      (s.key c b).1.history = s.history := by
    simp only [State.key, State.endLine, State.edit]
    split_ifs <;> exact ⟨rfl, rfl, rfl⟩
  obtain ⟨hstage, husername, hhistory⟩ := hframe
  refine ⟨?_, hhistory⟩
  cases name <;> simpa only [State.AtLogin, hstage, husername] using h

theorem State.typedLines_congr {s t : State} {c : Config} (htyped : s.typed = t.typed)
    (hended : s.lineEnded = t.lineEnded) (bytes : List UInt8) :
    s.typedLines c bytes = t.typedLines c bytes := by
  induction bytes generalizing s t with
  | nil => rfl
  | cons b rest ih =>
      have hkey : (s.key c b).2 = (t.key c b).2 ∧ (s.key c b).1.typed = (t.key c b).1.typed ∧
          (s.key c b).1.lineEnded = (t.key c b).1.lineEnded := by
        simp only [State.key, State.endLine, State.edit, State.line, htyped, hended]
        split_ifs <;> exact ⟨rfl, rfl, rfl⟩
      obtain ⟨hline, htyped, hended⟩ := hkey
      rw [typedLines, typedLines, hline, ih htyped hended]

theorem State.AtLogin.stage_eq {s : State} {c : Config} {lines : List String}
    (h : s.AtLogin c (c.nameAfter none lines)) : s.stage = c.stageAfter lines.length := by
  have hsome := c.isSome_nameAfter_none lines
  rcases hname : c.nameAfter none lines with _ | name <;> rw [hname] at h hsome
  · exact h.1.trans (if_neg fun hodd => absurd (hsome.mpr hodd) Bool.false_ne_true).symm
  · exact h.1.trans (if_pos (hsome.mp rfl)).symm

end RemoteConsole.Session
