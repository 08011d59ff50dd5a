/-
Texts in the order of their UTF-8 bytes, which is the order of their characters.
-/
import Mathlib.Data.String.Basic
import Mathlib.Tactic.Common
import RemoteConsole.Text.Utf8

namespace RemoteConsole.Text

/-- The UTF-8 bytes of a text as numbers. -/
def octets (text : String) : List Nat :=
  (encode text).map UInt8.toNat

theorem length_octets (text : String) : (octets text).length = text.utf8ByteSize := by
  have hlists : ∀ cs : List Char,
      ((cs.flatMap String.utf8EncodeChar).map UInt8.toNat).length = String.utf8Len cs := by
    intro cs
    induction cs with
    | nil => rfl
    | cons c cs ih =>
        rw [List.flatMap_cons, List.map_append, List.length_append, ih, List.length_map,
          String.length_utf8EncodeChar, String.utf8Len_cons, Nat.add_comm]
  rw [octets, encode, hlists, ← String.utf8ByteSize_ofList, String.ofList_toList]

/-- No character is without bytes. -/
theorem length_le_length_octets (text : String) : text.length ≤ (octets text).length := by
  have hlists : ∀ cs : List Char, cs.length ≤ String.utf8Len cs := by
    intro cs
    induction cs with
    | nil => exact Nat.le_refl 0
    | cons c cs ih =>
        have hpos := c.utf8Size_pos
        rw [List.length_cons, String.utf8Len_cons]
        omega
  have hle := hlists text.toList
  rwa [← String.utf8ByteSize_ofList, String.ofList_toList, String.length_toList,
    ← length_octets] at hle

/-- The bytes of a smaller character are smaller, and no beginning of the others. -/
theorem utf8_lt_utf8 {c d : Char} (h : c < d) (x y : List Nat) :
    (String.utf8EncodeChar c).map UInt8.toNat ++ x <
      (String.utf8EncodeChar d).map UInt8.toNat ++ y := by
  have hlt : c.val.toNat < d.val.toNat := h
  have hd : d.val.toNat < 1114112 := by
    rcases d.valid with hd | ⟨_, hd⟩
    · exact Nat.lt_of_lt_of_le hd (by decide)
    · exact hd
  have hthree : ∀ n : Nat, n / 4096 = n / 64 / 64 := by omega
  have hfour : ∀ n : Nat, n / 262144 = n / 64 / 64 / 64 := by omega
  unfold String.utf8EncodeChar
  simp only [hthree, hfour]
  generalize c.val.toNat = m at hlt
  generalize d.val.toNat = n at hlt hd
  split_ifs <;> simp only [List.map_cons, List.map_nil, List.cons_append, List.nil_append,
    List.cons_lt_cons_iff, UInt8.toNat_ofNat'] <;> omega

theorem octets_lt_of_lt {a b : String} (h : a < b) : octets a < octets b := by
  have hlists : ∀ cs ds : List Char, cs < ds →
      (cs.flatMap String.utf8EncodeChar).map UInt8.toNat <
        (ds.flatMap String.utf8EncodeChar).map UInt8.toNat := by
    intro cs
    induction cs with
    | nil =>
        intro ds hds
        cases ds with
        | nil => exact absurd hds (List.not_lt_nil _)
        | cons d ds =>
            have hpos := d.utf8Size_pos
            rw [← String.length_utf8EncodeChar] at hpos
            cases hd : String.utf8EncodeChar d with
            | nil => simp [hd] at hpos
            | cons b bs => simp [hd]
    | cons c cs ih =>
        intro ds hds
        cases ds with
        | nil => exact absurd hds (List.not_lt_nil _)
        | cons d ds =>
            rw [List.flatMap_cons, List.flatMap_cons, List.map_append, List.map_append]
            rcases List.cons_lt_cons_iff.mp hds with hlt | ⟨rfl, hlt⟩
            · exact utf8_lt_utf8 hlt _ _
            · exact List.append_left_lt (ih ds hlt)
  exact hlists _ _ (String.lt_iff_toList_lt.mp h)

theorem octets_lt_iff {a b : String} : octets a < octets b ↔ a < b := by
  refine ⟨fun h => ?_, octets_lt_of_lt⟩
  rcases lt_trichotomy a b with hlt | rfl | hgt
  · exact hlt
  · exact absurd h (lt_irrefl _)
  · exact absurd h (octets_lt_of_lt hgt).asymm

theorem octets_injective : Function.Injective octets := by
  intro a b h
  rcases lt_trichotomy a b with hlt | heq | hgt
  · exact absurd h (octets_lt_of_lt hlt).ne
  · exact heq
  · exact absurd h (octets_lt_of_lt hgt).ne'

end RemoteConsole.Text
