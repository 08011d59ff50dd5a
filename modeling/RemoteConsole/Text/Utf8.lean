/-
Text as bytes.  `encode` writes UTF-8; `decodeLossy` reads any bytes, with one
replacement character for each maximal part that is not UTF-8.
-/
namespace RemoteConsole.Text

/-- The UTF-8 bytes of a text. -/
def encode (text : String) : List UInt8 :=
  text.toList.flatMap String.utf8EncodeChar

theorem encode_append (a b : String) : encode (a ++ b) = encode a ++ encode b := by
  simp [encode, String.toList_append]

/-- The character that stands for bytes that are not UTF-8. -/
def replacement : Char := '\ufffd'

/-- A character of which some bytes have been read: how many are still to come,
the range the next one must lie in, and the bits so far. -/
structure Partial where
  missing : Nat
  low : UInt8
  high : UInt8
  bits : Nat
deriving DecidableEq, Repr

/-- Read a byte that begins a character: the character if it is complete, or
what is known of it, or nothing if no character begins so. -/
def begin (b : UInt8) : Char ⊕ Option Partial :=
  if b < 0x80 then .inl (Char.ofNat b.toNat)
  else if b < 0xc2 then .inr none
  else if b < 0xe0 then .inr (some ⟨1, 0x80, 0xbf, b.toNat - 0xc0⟩)
  else if b = 0xe0 then .inr (some ⟨2, 0xa0, 0xbf, 0⟩)
  else if b = 0xed then .inr (some ⟨2, 0x80, 0x9f, 0xd⟩)
  else if b < 0xf0 then .inr (some ⟨2, 0x80, 0xbf, b.toNat - 0xe0⟩)
  else if b = 0xf0 then .inr (some ⟨3, 0x90, 0xbf, 0⟩)
  else if b < 0xf4 then .inr (some ⟨3, 0x80, 0xbf, b.toNat - 0xf0⟩)
  else if b = 0xf4 then .inr (some ⟨3, 0x80, 0x8f, 4⟩)
  else .inr none

/-- Read bytes, some of a character having been read already. -/
def decodeFrom : Option Partial → List UInt8 → List Char
  | none, [] => []
  | some _, [] => [replacement]
  | none, b :: rest =>
      match begin b with
      | .inl c => c :: decodeFrom none rest
      | .inr none => replacement :: decodeFrom none rest
      | .inr (some part) => decodeFrom (some part) rest
  | some part, b :: rest =>
      if part.low ≤ b ∧ b ≤ part.high then
        let bits := part.bits * 64 + (b.toNat - 0x80)
        if part.missing = 1 then Char.ofNat bits :: decodeFrom none rest
        else decodeFrom (some ⟨part.missing - 1, 0x80, 0xbf, bits⟩) rest
      else
        replacement ::
          match begin b with
          | .inl c => c :: decodeFrom none rest
          | .inr none => replacement :: decodeFrom none rest
          | .inr (some part) => decodeFrom (some part) rest

/-- The text of any bytes.  A part that is not UTF-8 is as long as a character
could have begun with it, and reads as one replacement character. -/
def decodeLossy (bytes : List UInt8) : String :=
  String.ofList (decodeFrom none bytes)

end RemoteConsole.Text
