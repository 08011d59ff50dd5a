/-
The subnegotiations of a stream as the peer sent them, whole.  What a reader keeps is cut to
its limit, each on its own, and what it holds at any time is of the one under way alone.
-/
import RemoteConsole.Proofs.Telnet.CutShort

namespace RemoteConsole.Telnet

/-- The commands that an option follows. -/
def negotiators : List UInt8 :=
  [Command.do.code, Command.dont.code, Command.will.code, Command.wont.code]

/-- The subnegotiations of a byte stream, each with its option code and all of its payload, a
doubled 255 taken for one byte.  Apart from them stands what has come of one that is under
way. -/
inductive Frames : List UInt8 → List (List UInt8) → List UInt8 → Prop where
  | nil : Frames [] [] []
  | data {b : UInt8} {rest : List UInt8} {frames : List (List UInt8)} {underway : List UInt8}
      (hb : b ≠ iac) (hrest : Frames rest frames underway) : Frames (b :: rest) frames underway
  | doubled {rest : List UInt8} {frames : List (List UInt8)} {underway : List UInt8}
      (hrest : Frames rest frames underway) : Frames (iac :: iac :: rest) frames underway
  | negotiation {c o : UInt8} {rest : List UInt8} {frames : List (List UInt8)}
      {underway : List UInt8} (hc : c ∈ negotiators) (hrest : Frames rest frames underway) :
      Frames (iac :: c :: o :: rest) frames underway
  | command {c : UInt8} {rest : List UInt8} {frames : List (List UInt8)} {underway : List UInt8}
      (hc : c ∉ iac :: Command.subnegotiation.code :: negotiators)
      (hrest : Frames rest frames underway) : Frames (iac :: c :: rest) frames underway
  /-- A subnegotiation that the peer ends. -/
  | ended (sent : List UInt8) {rest : List UInt8} {frames : List (List UInt8)}
      {underway : List UInt8} (hrest : Frames rest frames underway) :
      Frames (iac :: Command.subnegotiation.code ::
        (Telnet.doubled sent ++ iac :: Command.subnegotiationEnd.code :: rest))
        (sent :: frames) underway
  /-- One that a command cuts short; the command, which may begin the next, is read as any
  other. -/
  | cut (sent : List UInt8) {c : UInt8} {rest : List UInt8} {frames : List (List UInt8)}
      {underway : List UInt8} (hc : Cuts c) (hrest : Frames (iac :: c :: rest) frames underway) :
      Frames (iac :: Command.subnegotiation.code :: (Telnet.doubled sent ++ iac :: c :: rest))
        (sent :: frames) underway
  /-- One under way. -/
  | unended (sent : List UInt8) :
      Frames (iac :: Command.subnegotiation.code :: Telnet.doubled sent) [] sent
  | unendedCommand (sent : List UInt8) :
      Frames (iac :: Command.subnegotiation.code :: (Telnet.doubled sent ++ [iac])) [] sent
  /-- A command under way. -/
  | unfinished : Frames [iac] [] []
  | unfinishedNegotiation {c : UInt8} (hc : c ∈ negotiators) : Frames [iac, c] [] []

/-! Every stream has its subnegotiations. -/

/-- Where the payload of a subnegotiation stops. -/
inductive Stops : List UInt8 → Prop where
  | nowhere : Stops []
  | unknown : Stops [iac]
  | command {c : UInt8} (hc : c ≠ iac) (rest : List UInt8) : Stops (iac :: c :: rest)

theorem exists_stop : ∀ bytes : List UInt8,
    ∃ sent rest, bytes = doubled sent ++ rest ∧ Stops rest
  | [] => ⟨[], [], rfl, .nowhere⟩
  | [b] => by
      by_cases hb : b = iac
      · exact ⟨[], [b], rfl, hb ▸ .unknown⟩
      · exact ⟨[b], [], by simp [doubled, hb], .nowhere⟩
  | b :: c :: bytes => by
      by_cases hb : b = iac
      · subst hb
        by_cases hc : c = iac
        · subst hc
          obtain ⟨sent, rest, rfl, hstops⟩ := exists_stop bytes
          exact ⟨iac :: sent, rest, by simp [doubled], hstops⟩
        · exact ⟨[], iac :: c :: bytes, rfl, .command hc bytes⟩
      · obtain ⟨sent, rest, hrest, hstops⟩ := exists_stop (c :: bytes)
        exact ⟨b :: sent, rest, by simpa [doubled, hb] using hrest, hstops⟩

/-- An opening subnegotiation, if what is shorter has its frames. -/
theorem exists_frames_opening (bytes : List UInt8)
    (ih : ∀ rest, rest.length < bytes.length + 2 →
      ∃ frames underway, Frames rest frames underway) :
    ∃ frames underway,
      Frames (iac :: Command.subnegotiation.code :: bytes) frames underway := by
  obtain ⟨sent, stop, rfl, hstops⟩ := exists_stop bytes
  cases hstops with
  | nowhere =>
      rw [List.append_nil]
      exact ⟨[], sent, .unended sent⟩
  | unknown => exact ⟨[], sent, .unendedCommand sent⟩
  | @command c hc rest =>
      by_cases hend : c = Command.subnegotiationEnd.code
      · subst hend
        obtain ⟨frames, underway, h⟩ := ih rest (by
          rw [List.length_append, List.length_cons, List.length_cons]
          omega)
        exact ⟨sent :: frames, underway, .ended sent h⟩
      · -- the command that cuts it short is still to be read
        obtain ⟨frames, underway, h⟩ := ih (iac :: c :: rest) (by
          rw [List.length_append]
          omega)
        exact ⟨sent :: frames, underway, .cut sent ⟨hc, hend⟩ h⟩

theorem exists_frames_of_shorter : ∀ bytes : List UInt8,
    (∀ rest, rest.length < bytes.length → ∃ frames underway, Frames rest frames underway) →
      ∃ frames underway, Frames bytes frames underway
  | [], _ => ⟨[], [], .nil⟩
  | [b], _ => by
      by_cases hb : b = iac
      · exact ⟨[], [], hb ▸ .unfinished⟩
      · exact ⟨[], [], .data hb .nil⟩
  | b :: c :: rest, ih => by
      obtain ⟨frames, underway, h⟩ := ih rest (by simp only [List.length_cons]; omega)
      by_cases hb : b = iac
      · subst hb
        by_cases hiac : c = iac
        · exact ⟨frames, underway, hiac ▸ .doubled h⟩
        · by_cases hopening : c = Command.subnegotiation.code
          · exact hopening ▸ exists_frames_opening rest ih
          · by_cases hneg : c ∈ negotiators
            · cases rest with
              | nil => exact ⟨[], [], .unfinishedNegotiation hneg⟩
              | cons o rest =>
                  obtain ⟨frames, underway, h⟩ := ih rest (by simp only [List.length_cons]; omega)
                  exact ⟨frames, underway, .negotiation hneg h⟩
            · exact ⟨frames, underway, .command (by simp [hiac, hopening, hneg]) h⟩
      · obtain ⟨frames, underway, h⟩ := ih (c :: rest) (Nat.lt_succ_self _)
        exact ⟨frames, underway, .data hb h⟩

theorem exists_frames (bytes : List UInt8) : ∃ frames underway, Frames bytes frames underway := by
  induction hn : bytes.length using Nat.strongRecOn generalizing bytes with
  | ind n ih =>
      apply exists_frames_of_shorter bytes
      intro rest hrest
      exact ih rest.length (hn ▸ hrest) rest rfl

/-! What a reader keeps of them. -/

/-- What was kept of the subnegotiation that a token is. -/
def Token.frame? : Token → Option (List UInt8)
  | .frame kept => some kept
  | .data _ | .command _ | .word _ _ _ => none

namespace Reader

variable (limit : Nat)

theorem read_data {b : UInt8} (hb : b ≠ iac) :
    ({ limit } : Reader).read b = ({ limit }, [.data b]) := by
  simp [read, hb]

theorem after_negotiation {c : UInt8} (hc : c ∈ negotiators) (o : UInt8) :
    ({ limit } : Reader).after [iac, c, o] = { limit } ∧
      (({ limit } : Reader).tokens [iac, c, o]).filterMap Token.frame? = [] := by
  simp only [negotiators, List.mem_cons, List.not_mem_nil, or_false] at hc
  rcases hc with rfl | rfl | rfl | rfl <;> exact ⟨rfl, rfl⟩

theorem after_command {c : UInt8}
    (hc : c ∉ iac :: Command.subnegotiation.code :: negotiators) :
    ({ limit } : Reader).after [iac, c] = { limit } ∧
      (({ limit } : Reader).tokens [iac, c]).filterMap Token.frame? = [] := by
  simp only [negotiators, List.mem_cons, List.not_mem_nil, or_false, not_or] at hc
  obtain ⟨hiac, hopening, hdo, hdont, hwill, hwont⟩ := hc
  simp [after, tokens, read, readCommand, Token.frame?, hiac, hopening, hdo, hdont, hwill, hwont]

/-- Of a subnegotiation under way as much is kept as there is room for, and nothing of those
before it. -/
theorem exists_inside (sent : List UInt8) :
    ∃ inside : Reader, inside.decoder = .subnegotiating ∧ inside.limit = limit ∧
      inside.received.toList = sent.take (limit + 1) ∧
      ∀ rest, let bytes := iac :: Command.subnegotiation.code :: (doubled sent ++ rest)
        ({ limit } : Reader).after bytes = inside.after rest ∧
          ({ limit } : Reader).tokens bytes = inside.tokens rest := by
  let opened : Reader := { decoder := .subnegotiating, limit }
  obtain ⟨hd, hreceived, htokens⟩ := opened.after_doubled sent rfl (Nat.zero_le _)
  refine ⟨opened.after (doubled sent), hd, limit_after _ _, hreceived, fun rest => ⟨?_, ?_⟩⟩
  · exact opened.after_append (doubled sent) rest
  · change opened.tokens (doubled sent ++ rest) = _
    rw [tokens_append, htokens, List.nil_append]

/-- Once a subnegotiation has ended nothing of it is kept. -/
theorem after_ended {r : Reader} (hr : r.decoder = .subnegotiating) (rest : List UInt8) :
    r.after (iac :: Command.subnegotiationEnd.code :: rest) =
        ({ limit := r.limit } : Reader).after rest ∧
      r.tokens (iac :: Command.subnegotiationEnd.code :: rest) =
        .frame r.received.toList :: ({ limit := r.limit } : Reader).tokens rest := by
  obtain ⟨hafter, htokens⟩ := r.after_end hr
  change r.after ([iac, Command.subnegotiationEnd.code] ++ rest) = _ ∧
    r.tokens ([iac, Command.subnegotiationEnd.code] ++ rest) = _
  rw [after_append, tokens_append, hafter, htokens]
  exact ⟨rfl, rfl⟩

/-- Nor once a command cuts it short; the command is read as any other. -/
theorem after_cut {r : Reader} (hr : r.decoder = .subnegotiating) {c : UInt8} (hc : Cuts c)
    (rest : List UInt8) :
    r.after (iac :: c :: rest) = ({ limit := r.limit } : Reader).after (iac :: c :: rest) ∧
      r.tokens (iac :: c :: rest) =
        .frame r.received.toList :: ({ limit := r.limit } : Reader).tokens (iac :: c :: rest) := by
  obtain ⟨hiac, hend⟩ := hc
  simp [after, tokens, read, hr, hiac, hend]

end Reader

namespace Frames

variable {bytes underway : List UInt8} {frames : List (List UInt8)}

/-- A reader keeps of each subnegotiation what there is room for, and nothing else; and of the
one under way likewise. -/
theorem kept (h : Frames bytes frames underway) (limit : Nat) :
    let r : Reader := { limit }
    (r.after bytes).received.toList = underway.take (limit + 1) ∧
      (r.tokens bytes).filterMap Token.frame? = frames.map (List.take (limit + 1)) := by
  intro r
  induction h with
  | nil => exact ⟨rfl, rfl⟩
  | data hb hrest ih =>
      rw [Reader.after, Reader.tokens, Reader.read_data limit hb]
      exact ih
  | doubled hrest ih => exact ih
  | @negotiation c o rest frames underway hc hrest ih =>
      obtain ⟨hafter, htokens⟩ := Reader.after_negotiation limit hc o
      change (r.after ([iac, c, o] ++ rest)).received.toList = _ ∧
        (r.tokens ([iac, c, o] ++ rest)).filterMap Token.frame? = _
      rw [Reader.after_append, Reader.tokens_append, List.filterMap_append, htokens, hafter]
      exact ih
  | @command c rest frames underway hc hrest ih =>
      obtain ⟨hafter, htokens⟩ := Reader.after_command limit hc
      change (r.after ([iac, c] ++ rest)).received.toList = _ ∧
        (r.tokens ([iac, c] ++ rest)).filterMap Token.frame? = _
      rw [Reader.after_append, Reader.tokens_append, List.filterMap_append, htokens, hafter]
      exact ih
  | @ended sent rest frames underway hrest ih =>
      obtain ⟨inside, hd, rfl, hreceived, hread⟩ := Reader.exists_inside limit sent
      obtain ⟨hafter, htokens⟩ := Reader.after_ended hd rest
      rw [(hread _).1, (hread _).2, hafter, htokens, hreceived]
      exact ⟨ih.1, congrArg _ ih.2⟩
  | @cut sent c rest frames underway hc hrest ih =>
      obtain ⟨inside, hd, rfl, hreceived, hread⟩ := Reader.exists_inside limit sent
      obtain ⟨hafter, htokens⟩ := Reader.after_cut hd hc rest
      rw [(hread _).1, (hread _).2, hafter, htokens, hreceived]
      exact ⟨ih.1, congrArg _ ih.2⟩
  | unended sent =>
      obtain ⟨inside, -, -, hreceived, hread⟩ := Reader.exists_inside limit sent
      rw [← List.append_nil (Telnet.doubled sent), (hread []).1, (hread []).2]
      exact ⟨hreceived, rfl⟩
  | unendedCommand sent =>
      obtain ⟨inside, hd, -, hreceived, hread⟩ := Reader.exists_inside limit sent
      rw [(hread [iac]).1, (hread [iac]).2]
      simp [Reader.after, Reader.tokens, Reader.read, hd, hreceived]
  | unfinished => exact ⟨rfl, rfl⟩
  | unfinishedNegotiation hc =>
      simp only [negotiators, List.mem_cons, List.not_mem_nil, or_false] at hc
      rcases hc with rfl | rfl | rfl | rfl <;> exact ⟨rfl, rfl⟩

/-- A stream has its subnegotiations in one way only. -/
theorem unique {frames' : List (List UInt8)} {underway' : List UInt8}
    (h : Frames bytes frames underway) (h' : Frames bytes frames' underway') :
    frames' = frames ∧ underway' = underway := by
  -- a reader with room for all of them keeps them whole
  let limit := ((frames ++ frames').flatten ++ (underway ++ underway')).length
  have hframes : ∀ sent ∈ frames ++ frames', sent.take (limit + 1) = sent := by
    intro sent hsent
    apply List.take_of_length_le
    have hlength := (List.sublist_flatten_of_mem hsent).length_le
    simp only [limit, List.length_append]
    omega
  have hunderway : underway.take (limit + 1) = underway ∧
      underway'.take (limit + 1) = underway' := by
    constructor <;> apply List.take_of_length_le <;> simp only [limit, List.length_append] <;> omega
  obtain ⟨hreceived, htokens⟩ := h.kept limit
  obtain ⟨hreceived', htokens'⟩ := h'.kept limit
  constructor
  · have hmap := htokens'.symm.trans htokens
    rwa [List.map_congr_left fun sent hsent => hframes sent (List.mem_append_right _ hsent),
      List.map_congr_left fun sent hsent => hframes sent (List.mem_append_left _ hsent),
      List.map_id', List.map_id'] at hmap
  · have htake := hreceived'.symm.trans hreceived
    rwa [hunderway.1, hunderway.2] at htake

end Frames

end RemoteConsole.Telnet
