/-
How the messages that an engine sends are read at the other end.  Each of them
begins and ends between commands, so a stream of messages reads as the tokens of
each in turn.
-/
import RemoteConsole.Proofs.Telnet.Reader

namespace RemoteConsole.Telnet

/-- The same side, as the peer calls it. -/
def Side.other : Side → Side
  | .ours => .theirs
  | .theirs => .ours

@[simp] theorem Side.other_other (side : Side) : side.other.other = side := by
  cases side <;> rfl

/-- The bytes are whole messages, and these are their tokens for a reader with
the given limit. -/
def Reads (limit : Nat) (bytes : List UInt8) (ts : List Token) : Prop :=
  ∀ r : Reader, r.decoder = .idle → r.limit = limit →
    (r.after bytes).decoder = .idle ∧ r.tokens bytes = ts

@[simp] theorem Reader.limit_after (r : Reader) (bytes : List UInt8) :
    (r.after bytes).limit = r.limit := by
  induction bytes generalizing r with
  | nil => rfl
  | cons b bytes ih => rw [Reader.after, ih, Reader.limit_read]

namespace Reads

theorem nil (limit : Nat) : Reads limit [] [] := by
  intro r hr _
  exact ⟨hr, rfl⟩

theorem append {limit : Nat} {x y : List UInt8} {ts us : List Token}
    (hx : Reads limit x ts) (hy : Reads limit y us) : Reads limit (x ++ y) (ts ++ us) := by
  intro r hr hlimit
  obtain ⟨hidle, hts⟩ := hx r hr hlimit
  obtain ⟨hidle', hus⟩ := hy (r.after x) hidle (by rw [Reader.limit_after, hlimit])
  rw [Reader.after_append, Reader.tokens_append, hts, hus]
  exact ⟨hidle', rfl⟩

/-- A reader that stands between commands after `x` reads on with the messages. -/
theorem extend {r : Reader} {x y : List UInt8} {us : List Token}
    (hx : (r.after x).decoder = .idle) (hy : Reads r.limit y us) :
    (r.after (x ++ y)).decoder = .idle ∧ r.tokens (x ++ y) = r.tokens x ++ us := by
  obtain ⟨hidle, hus⟩ := hy (r.after x) hx (Reader.limit_after r x)
  rw [Reader.after_append, Reader.tokens_append, hus]
  exact ⟨hidle, rfl⟩

/-- What we say of a side is heard of the same side, which the peer calls the
other. -/
theorem negotiation (limit : Nat) (side : Side) (o : OptionCode) (enable : Bool) :
    Reads limit (negotiation (Engine.switchCommand side enable) o)
      [.word side.other o enable] := by
  intro r hr _
  cases side <;> cases enable <;>
    simp [Telnet.negotiation, Engine.switchCommand, Reader.after, Reader.tokens, Reader.read,
      Reader.readCommand, hr, Side.other, iac, Command.do, Command.dont, Command.will,
      Command.wont]

theorem command (limit : Nat) {c : Command} (hc : c.isStandalone = true) :
    Reads limit (Engine.commandBytes c) [.command c] := by
  have framing : ∀ d : Command, d.isStandalone = false → c.code ≠ d.code := by
    intro d hd heq
    have hcd : c = d := by rcases c with ⟨_⟩; exact congrArg Command.mk heq
    rw [hcd, hd] at hc
    contradiction
  have hiac : c.code ≠ iac := framing .interpretAsCommand (by decide)
  have hdo := framing .do (by decide)
  have hdont := framing .dont (by decide)
  have hwill := framing .will (by decide)
  have hwont := framing .wont (by decide)
  have hsb := framing .subnegotiation (by decide)
  intro r hr _
  simp [Engine.commandBytes, Reader.after, Reader.tokens, Reader.read, Reader.readCommand, hr,
    hiac, hdo, hdont, hwill, hwont, hsb]

theorem doubled (limit : Nat) (data : List UInt8) :
    Reads limit (doubled data) (data.map .data) := by
  induction data with
  | nil => exact nil limit
  | cons b data ih =>
      have hb : Reads limit (if b = iac then [iac, iac] else [b]) [.data b] := by
        intro r hr _
        by_cases h : b = iac
        · simp [Reader.after, Reader.tokens, Reader.read, Reader.readCommand, hr, h]
        · simp [Reader.after, Reader.tokens, Reader.read, hr, h]
      exact hb.append ih

end Reads

/-! Within a subnegotiation. -/

namespace Reader

theorem toList_keep (r : Reader) (b : UInt8) (h : r.received.toList.length ≤ r.limit + 1) :
    (r.keep b).received.toList = (r.received.toList ++ [b]).take (r.limit + 1) := by
  rw [Log.length_toList] at h
  unfold keep
  split
  · have hfull : r.received.toList.length = r.limit + 1 := by
      rw [Log.length_toList]
      omega
    rw [List.take_append_of_le_length (by omega), ← hfull, List.take_length]
  · rw [Log.toList_add, List.take_of_length_le]
    rw [List.length_append, Log.length_toList, List.length_singleton]
    omega

/-- Read as one byte or as two, a byte of a payload is kept once. -/
theorem after_doubled_byte (r : Reader) (b : UInt8) (hd : r.decoder = .subnegotiating) :
    r.after (if b = iac then [iac, iac] else [b]) = r.keep b ∧
      r.tokens (if b = iac then [iac, iac] else [b]) = [] := by
  by_cases h : b = iac
  · simp [after, tokens, read, hd, h, r.with_decoder hd]
  · simp [after, tokens, read, hd, h]

theorem take_take_append (n : Nat) (x y : List UInt8) :
    (x.take n ++ y).take n = (x ++ y).take n := by
  have hroom : n - min n x.length = n - x.length := by omega
  rw [List.take_append, List.take_append, List.take_take, List.length_take, Nat.min_self, hroom]

/-- Within a subnegotiation the payload is kept, as far as there is room. -/
theorem after_doubled (r : Reader) (payload : List UInt8) (hd : r.decoder = .subnegotiating)
    (h : r.received.toList.length ≤ r.limit + 1) :
    (r.after (doubled payload)).decoder = .subnegotiating ∧
      (r.after (doubled payload)).received.toList =
        (r.received.toList ++ payload).take (r.limit + 1) ∧
      r.tokens (doubled payload) = [] := by
  induction payload generalizing r with
  | nil => exact ⟨hd, by simpa [doubled, after] using (List.take_of_length_le h).symm, rfl⟩
  | cons b payload ih =>
      obtain ⟨hafter, htokens⟩ := r.after_doubled_byte b hd
      have hkept := r.toList_keep b h
      obtain ⟨hd', hreceived, hrest⟩ := ih (r.keep b) (by rw [decoder_keep, hd]) (by
        rw [hkept, limit_keep]
        exact List.length_take_le _ _)
      change (r.after (_ ++ doubled payload)).decoder = _ ∧
        (r.after (_ ++ doubled payload)).received.toList = _ ∧
        r.tokens (_ ++ doubled payload) = _
      rw [after_append, tokens_append, hafter, htokens]
      refine ⟨hd', ?_, hrest⟩
      rw [hreceived, hkept, limit_keep, take_take_append, List.append_assoc,
        List.singleton_append]

/-- Of a subnegotiation that has not ended the option code is kept, and as many bytes of
the payload as the limit allows. -/
theorem after_opened (r : Reader) (o : OptionCode) (payload : List UInt8)
    (hr : r.decoder = .idle) (ho : o.code ≠ iac) :
    let bytes := [iac, Command.subnegotiation.code, o.code] ++ doubled payload
    (r.after bytes).decoder = .subnegotiating ∧
      (r.after bytes).received.toList = o.code :: payload.take r.limit ∧ r.tokens bytes = [] := by
  intro bytes
  let opened : Reader := ⟨.subnegotiating, Log.empty.add o.code, r.limit⟩
  have hopen : r.after [iac, Command.subnegotiation.code, o.code] = opened ∧
      r.tokens [iac, Command.subnegotiation.code, o.code] = [] := by
    have hcode : o.code ≠ 255 := ho
    simp [after, tokens, read, readCommand, keep, hr, hcode, iac, Command.subnegotiation,
      Command.do, Command.dont, Command.will, Command.wont, Log.empty, Log.add, opened]
  obtain ⟨hd, hreceived, htokens⟩ := opened.after_doubled payload rfl (by simp [opened])
  rw [after_append, tokens_append, hopen.1, hopen.2, htokens]
  refine ⟨hd, ?_, rfl⟩
  rw [hreceived]
  simp [opened]

theorem after_end (r : Reader) (hd : r.decoder = .subnegotiating) :
    r.after [iac, Command.subnegotiationEnd.code] =
        { r with decoder := .idle, received := .empty } ∧
      r.tokens [iac, Command.subnegotiationEnd.code] = [.frame r.received.toList] := by
  simp [after, tokens, read, hd, iac, Command.subnegotiationEnd]

end Reader

/-- Of a subnegotiation the option code is kept, and as many bytes of the payload
as the limit allows. -/
theorem Reads.subnegotiation (limit : Nat) (o : OptionCode) (payload : List UInt8)
    (ho : o.code ≠ iac) :
    Reads limit (Telnet.subnegotiation o payload) [.frame (o.code :: payload.take limit)] := by
  intro r hr hlimit
  obtain ⟨hd, hreceived, htokens⟩ := r.after_opened o payload hr ho
  obtain ⟨hafter, hframe⟩ := Reader.after_end _ hd
  rw [hreceived, hlimit] at hframe
  unfold Telnet.subnegotiation
  rw [Reader.after_append, Reader.tokens_append, htokens, hafter, hframe]
  exact ⟨rfl, rfl⟩

/-! Data. -/

/-- Data with its carriage returns padded, before any byte is doubled. -/
def padded (binary : Bool) : List UInt8 → List UInt8
  | [] => []
  | b :: rest =>
      if b = cr ∧ binary = false ∧ rest.head? ≠ some lf then
        cr :: nul :: padded binary rest
      else b :: padded binary rest

theorem escape_eq (binary : Bool) (data : List UInt8) :
    escape binary data = doubled (padded binary data) := by
  induction data with
  | nil => rfl
  | cons b rest ih =>
      by_cases hb : b = iac
      · subst hb
        have hcr : ¬(iac = cr ∧ binary = false ∧ rest.head? ≠ some lf) := by simp [iac, cr]
        rw [escape, if_pos rfl, padded, if_neg hcr, ih]
        rfl
      · rw [escape, if_neg hb, padded]
        split
        · rw [ih]
          rfl
        · rw [ih]
          simp [doubled, hb]

theorem Reads.escape (limit : Nat) (binary : Bool) (data : List UInt8) :
    Reads limit (Telnet.escape binary data) ((padded binary data).map .data) := by
  rw [escape_eq]
  exact Reads.doubled limit (padded binary data)

end RemoteConsole.Telnet
