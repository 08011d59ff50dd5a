/-
What data looks like on the wire.  It is the data with a byte put in here and there, which
any receiver can tell from what was there: runs of 255s are even, a carriage return is
followed by a line feed or a null, and pieces are written one by one as if at once, unless
a line end is cut in two.
-/
import RemoteConsole.Proofs.Telnet.Messages

namespace RemoteConsole.Telnet

/-- What is put after a byte of the data, given the byte that comes next. -/
def extra? (binary : Bool) (b : UInt8) (next : Option UInt8) : Option UInt8 :=
  if b = iac then some iac
  else if b = cr ∧ binary = false ∧ next ≠ some lf then some nul
  else none

/-- The data, each byte with what is put after it. -/
def spelled (binary : Bool) (data : List UInt8) : List UInt8 :=
  (List.ofFn fun i : Fin data.length =>
    data[i] :: (extra? binary data[i] data[i.val + 1]?).toList).flatten

theorem escape_cons (binary : Bool) (b : UInt8) (rest : List UInt8) :
    escape binary (b :: rest) =
      b :: ((extra? binary b rest.head?).toList ++ escape binary rest) := by
  by_cases hiac : b = iac
  · simp [escape, extra?, hiac]
  · by_cases hcr : b = cr ∧ binary = false ∧ rest.head? ≠ some lf
    · rw [escape, if_neg hiac, if_pos hcr, extra?, if_neg hiac, if_pos hcr, hcr.1]
      rfl
    · rw [escape, if_neg hiac, if_neg hcr, extra?, if_neg hiac, if_neg hcr]
      rfl

theorem spelled_cons (binary : Bool) (b : UInt8) (rest : List UInt8) :
    spelled binary (b :: rest) =
      b :: ((extra? binary b rest.head?).toList ++ spelled binary rest) := by
  simp [spelled, List.ofFn_succ, List.head?_eq_getElem?]

theorem escape_eq_spelled (binary : Bool) (data : List UInt8) :
    escape binary data = spelled binary data := by
  induction data with
  | nil => rfl
  | cons b rest ih => rw [escape_cons, spelled_cons, ih]

theorem head?_escape (binary : Bool) (data : List UInt8) :
    (escape binary data).head? = data.head? := by
  cases data with
  | nil => rfl
  | cons b rest => rw [escape_cons, List.head?_cons, List.head?_cons]

/-! Escaping onto an output.  The bytes between two that are put in are copied at once. -/

/-- Escape the bytes that are left, from `index` on.  Those from `start` up to it have been
passed over and wait to be copied. -/
def copyEscaped (binary : Bool) (data : List UInt8) (start index : Nat) (out : List UInt8) :
    List UInt8 → List UInt8
  | [] => out ++ data.drop start
  | b :: rest =>
      match extra? binary b data[index + 1]? with
      | some extra =>
          copyEscaped binary data (index + 1) (index + 1)
            (out ++ data.extract start (index + 1) ++ [extra]) rest
      | none => copyEscaped binary data start (index + 1) out rest

/-- Escape data onto an output. -/
def escapeInto (binary : Bool) (data out : List UInt8) : List UInt8 :=
  copyEscaped binary data 0 0 out data

theorem extract_succ {data rest : List UInt8} {b : UInt8} {start index : Nat}
    (hrest : data.drop index = b :: rest) (hstart : start ≤ index) :
    data.extract start (index + 1) = data.extract start index ++ [b] := by
  have hnext : (data.drop start)[index - start]? = some b := by
    rw [List.getElem?_drop, Nat.add_sub_cancel' hstart, ← List.head?_drop, hrest]
    rfl
  rw [List.extract_eq_take_drop, List.extract_eq_take_drop, Nat.succ_sub hstart, List.take_add_one,
    hnext]
  rfl

/-- The bytes that wait come out as they stand, and those that are left escaped. -/
theorem copyEscaped_eq (binary : Bool) {data : List UInt8} {start index : Nat}
    (out : List UInt8) {rest : List UInt8} (hrest : data.drop index = rest)
    (hstart : start ≤ index) :
    copyEscaped binary data start index out rest =
      out ++ data.extract start index ++ escape binary rest := by
  induction rest generalizing start index out with
  | nil =>
      have hlength : data.length ≤ index := List.drop_eq_nil_iff.mp hrest
      have hall : data.extract start index = data.drop start := by
        rw [List.extract_eq_take_drop, List.take_of_length_le]
        rw [List.length_drop]
        omega
      rw [copyEscaped, hall, escape, List.append_nil]
  | cons b rest ih =>
      have htail : data.drop (index + 1) = rest := by
        rw [← List.tail_drop, hrest, List.tail_cons]
      have hnext : data[index + 1]? = rest.head? := by
        rw [← htail, List.head?_drop]
      have hcopied := extract_succ hrest hstart
      rw [copyEscaped, hnext, escape_cons]
      cases extra? binary b rest.head? with
      | some extra =>
          -- everything up to here is copied, so that nothing waits
          have hnone : data.extract (index + 1) (index + 1) = [] := by
            simp [List.extract_eq_take_drop]
          simp only
          rw [ih _ htail (Nat.le_refl _), hnone, hcopied]
          simp
      | none =>
          simp only
          rw [ih _ htail (Nat.le_succ_of_le hstart), hcopied]
          simp

theorem escapeInto_eq (binary : Bool) (data out : List UInt8) :
    escapeInto binary data out = out ++ escape binary data := by
  rw [escapeInto, copyEscaped_eq binary out (List.drop_zero) (Nat.le_refl 0)]
  simp [List.extract_eq_take_drop]

/-! Runs of 255s. -/

/-- A run of 255s with no other 255 beside it has an even length. -/
def EvenRuns (bytes : List UInt8) : Prop :=
  ∀ x n y, bytes = x ++ List.replicate n iac ++ y → x.getLast? ≠ some iac →
    y.head? ≠ some iac → n % 2 = 0

theorem getLast?_ne_of_cons {c b : UInt8} {x : List UInt8} (h : (c :: x).getLast? ≠ some b) :
    x.getLast? ≠ some b := by
  intro hx
  rw [List.getLast?_cons, hx] at h
  exact h rfl

theorem doubled_cons (b : UInt8) (payload : List UInt8) :
    doubled (b :: payload) = (if b = iac then [iac, iac] else [b]) ++ doubled payload := rfl

/-- After a byte that is no 255 the doubling begins anew. -/
theorem exists_doubled {payload x z : List UInt8} (h : doubled payload = x ++ z)
    (hx : x.getLast? ≠ some iac) : ∃ rest, z = doubled rest := by
  induction payload generalizing x with
  | nil =>
      obtain ⟨-, rfl⟩ := List.append_eq_nil_iff.mp h.symm
      exact ⟨[], rfl⟩
  | cons b payload ih =>
      cases x with
      | nil => exact ⟨b :: payload, h.symm⟩
      | cons c x =>
          have hlast := getLast?_ne_of_cons hx
          rw [doubled_cons] at h
          by_cases hb : b = iac
          · rw [if_pos hb] at h
            obtain ⟨hc, hpair⟩ := List.cons_eq_cons.mp h
            cases x with
            | nil =>
                rw [← hc] at hx
                contradiction
            | cons d x =>
                obtain ⟨-, hrest⟩ := List.cons_eq_cons.mp hpair
                exact ih hrest (getLast?_ne_of_cons hlast)
          · rw [if_neg hb] at h
            obtain ⟨-, hrest⟩ := List.cons_eq_cons.mp h
            exact ih hrest hlast

/-- The run at the front is made of pairs. -/
theorem even_front {payload y : List UInt8} {n : Nat}
    (h : doubled payload = List.replicate n iac ++ y) (hy : y.head? ≠ some iac) :
    n % 2 = 0 := by
  induction payload generalizing n with
  | nil =>
      obtain ⟨hrun, -⟩ := List.append_eq_nil_iff.mp h.symm
      obtain rfl : n = 0 := by simpa using hrun
      rfl
  | cons b payload ih =>
      rw [doubled_cons] at h
      by_cases hb : b = iac
      · rw [if_pos hb] at h
        -- a shorter run would have a 255 of the pair beside it
        match n with
        | 0 =>
            obtain rfl : _ = y := h
            contradiction
        | 1 =>
            obtain ⟨-, hpair⟩ := List.cons_eq_cons.mp h
            obtain rfl : _ = y := hpair
            contradiction
        | n + 2 =>
            obtain ⟨-, hpair⟩ := List.cons_eq_cons.mp h
            obtain ⟨-, hrest⟩ := List.cons_eq_cons.mp hpair
            rw [Nat.add_mod_right]
            exact ih hrest
      · rw [if_neg hb] at h
        cases n with
        | zero => rfl
        | succ n => exact absurd (List.cons_eq_cons.mp h).1 hb

theorem evenRuns_doubled (payload : List UInt8) : EvenRuns (doubled payload) := by
  intro x n y h hx hy
  rw [List.append_assoc] at h
  obtain ⟨rest, hrest⟩ := exists_doubled h hx
  exact even_front hrest.symm hy

theorem evenRuns_escape (binary : Bool) (data : List UInt8) : EvenRuns (escape binary data) := by
  rw [escape_eq]
  exact evenRuns_doubled (padded binary data)

/-! Carriage returns. -/

/-- What comes after a carriage return is a line feed or a null. -/
def ReturnsMarked (bytes : List UInt8) : Prop :=
  ∀ x y, bytes = x ++ cr :: y → y.head? = some lf ∨ y.head? = some nul

/-- A byte that is put in is no carriage return. -/
theorem extra?_ne (binary : Bool) (b : UInt8) (next : Option UInt8) :
    extra? binary b next ≠ some cr := by
  unfold extra?
  repeat' split
  all_goals simp [iac, nul, cr]

theorem returnsMarked_escape (data : List UInt8) : ReturnsMarked (escape false data) := by
  intro x y h
  induction data generalizing x with
  | nil => cases x <;> contradiction
  | cons b rest ih =>
      rw [escape_cons] at h
      cases x with
      | nil =>
          obtain ⟨rfl, rfl⟩ := List.cons_eq_cons.mp h
          by_cases hlf : rest.head? = some lf
          · have hextra : extra? false cr rest.head? = none := by simp [extra?, hlf, cr, iac]
            left
            rw [hextra, Option.toList_none, List.nil_append, head?_escape, hlf]
          · have hextra : extra? false cr rest.head? = some nul := by
              simp [extra?, hlf, cr, iac]
            right
            rw [hextra]
            rfl
      | cons c x =>
          obtain ⟨-, htail⟩ := List.cons_eq_cons.mp h
          have hextra := extra?_ne false b rest.head?
          cases hput : extra? false b rest.head? with
          | none =>
              rw [hput] at htail
              exact ih x htail
          | some extra =>
              rw [hput] at htail hextra
              cases x with
              | nil =>
                  obtain ⟨rfl, -⟩ := List.cons_eq_cons.mp htail
                  contradiction
              | cons d x => exact ih x (List.cons_eq_cons.mp htail).2

/-! Data in pieces. -/

/-- Two pieces of data that hold the halves of a line end. -/
def CutsLineEnd (binary : Bool) (a b : List UInt8) : Prop :=
  binary = false ∧ a.getLast? = some cr ∧ b.head? = some lf

instance (binary : Bool) (a b : List UInt8) : Decidable (CutsLineEnd binary a b) :=
  inferInstanceAs (Decidable (_ ∧ _))

/-- Only after a carriage return does the next byte count. -/
theorem extra?_last {binary : Bool} {c : UInt8} {b : List UInt8}
    (h : ¬CutsLineEnd binary [c] b) : extra? binary c b.head? = extra? binary c none := by
  unfold extra?
  by_cases hcr : c = cr ∧ binary = false
  · have hlf : b.head? ≠ some lf := fun hlf => h ⟨hcr.2, congrArg some hcr.1, hlf⟩
    simp [hlf]
  · simp [← and_assoc, hcr]

theorem escape_append {binary : Bool} {a b : List UInt8} (h : ¬CutsLineEnd binary a b) :
    escape binary (a ++ b) = escape binary a ++ escape binary b := by
  induction a with
  | nil => rfl
  | cons c a ih =>
      cases a with
      | nil =>
          rw [List.singleton_append, escape_cons, escape_cons, extra?_last h]
          simp [escape]
      | cons d a =>
          have hrest : ¬CutsLineEnd binary (d :: a) b := by
            rwa [CutsLineEnd, List.getLast?_cons_cons] at h
          have hhead : (d :: a ++ b).head? = (d :: a).head? := rfl
          rw [List.cons_append, escape_cons, escape_cons, ih hrest, hhead]
          simp

/-- Of a line end that is cut in two the first half has a null put after it. -/
theorem escape_append_of_cuts {binary : Bool} {a b : List UInt8} (h : CutsLineEnd binary a b) :
    ∃ x, escape binary a = x ++ [nul] ∧ escape binary (a ++ b) = x ++ escape binary b := by
  obtain ⟨rfl, hlast, hlf⟩ := h
  obtain ⟨front, rfl⟩ := List.getLast?_eq_some_iff.mp hlast
  have hfront : ∀ rest, ¬CutsLineEnd false front (cr :: rest) := by
    intro rest hcuts
    have hne : cr ≠ lf := by decide
    exact hne (Option.some.inj hcuts.2.2)
  have hreturn : escape false (cr :: b) = cr :: escape false b := by
    have hextra : extra? false cr b.head? = none := by simp [extra?, hlf, cr, iac]
    rw [escape_cons, hextra]
    rfl
  refine ⟨escape false front ++ [cr], ?_, ?_⟩
  · rw [escape_append (hfront [])]
    simp [escape, cr, iac]
  · rw [List.append_assoc, List.singleton_append, escape_append (hfront b), hreturn]
    simp

/-- Data is written onto what the output holds with just the bytes put in that any receiver
needs: after a 255 another, and outside binary mode a null after a carriage return that no
line feed follows.  So runs of 255s are even, and no carriage return stands alone; and
pieces make up what they would as one, but for a null within a line end that is cut. -/
theorem escaped_conforms (binary : Bool) (a b held : List UInt8) :
    escapeInto binary a held = held ++ escape binary a ∧
      escape binary a = spelled binary a ∧
      EvenRuns (escape binary a) ∧
      (binary = false → ReturnsMarked (escape binary a)) ∧
      (¬CutsLineEnd binary a b →
        escape binary (a ++ b) = escape binary a ++ escape binary b) ∧
      (CutsLineEnd binary a b →
        ∃ x, escape binary a = x ++ [nul] ∧
          escape binary (a ++ b) = x ++ escape binary b) := by
  refine ⟨escapeInto_eq binary a held, escape_eq_spelled binary a, evenRuns_escape binary a, ?_,
    escape_append, escape_append_of_cuts⟩
  rintro rfl
  exact returnsMarked_escape a

/-- Written after what is held, a carriage return at the end gets a null, and so does the
one before a 255, which is doubled. -/
example :
    CutsLineEnd false [13, 255, 255, 13] [10] ∧
      escapeInto false [13, 255, 255, 13] [7] = [7, 13, 0, 255, 255, 255, 255, 13, 0] ∧
      escapeInto false [13, 255, 255, 13, 10] [7] = [7, 13, 0, 255, 255, 255, 255, 13, 10] := by
  decide

end RemoteConsole.Telnet
