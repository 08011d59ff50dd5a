/-
Requests and answers take turns.  Of one side of an option no more than one request
is ever unanswered, whatever the owner asks for and whatever the peer sends.
-/
import RemoteConsole.Proofs.Telnet.Calls
import RemoteConsole.Proofs.Telnet.Heeding

namespace RemoteConsole.Telnet

/-- A turn in the talk about one side of an option: ours to ask, the peer's to
answer. -/
inductive Turn where
  | request
  | answer
deriving DecidableEq, Repr

/-- The turns taken while a side goes from one standing to another: what is heard is an
answer if one was awaited, and what is said is a request if it leaves one awaited. -/
def turnsOf (before after : Standing) (heard said : List Bool) : List Turn :=
  (if before.isPending then heard.map fun _ => .answer else []) ++
    (if after.isPending then said.map fun _ => .request else [])

/-- Requests and answers in turn; the flags tell whether an answer is awaited at the
start and at the end. -/
inductive Alternating : Bool → List Turn → Bool → Prop where
  | nil (awaited : Bool) : Alternating awaited [] awaited
  | request {ts : List Turn} {awaited : Bool} (h : Alternating true ts awaited) :
      Alternating false (.request :: ts) awaited
  | answer {ts : List Turn} {awaited : Bool} (h : Alternating false ts awaited) :
      Alternating true (.answer :: ts) awaited

namespace Alternating

variable {a b c : Bool} {ts us : List Turn}

theorem append (h : Alternating a ts b) (h' : Alternating b us c) :
    Alternating a (ts ++ us) c := by
  induction h with
  | nil => exact h'
  | request _ ih => exact .request (ih h')
  | answer _ ih => exact .answer (ih h')

theorem split (h : Alternating a (ts ++ us) c) :
    ∃ b, Alternating a ts b ∧ Alternating b us c := by
  induction ts generalizing a with
  | nil => exact ⟨a, .nil a, h⟩
  | cons t ts ih =>
      cases h with
      | request h =>
          obtain ⟨b, hts, hus⟩ := ih h
          exact ⟨b, .request hts, hus⟩
      | answer h =>
          obtain ⟨b, hts, hus⟩ := ih h
          exact ⟨b, .answer hts, hus⟩

theorem count_request (h : Alternating a ts b) :
    ts.count .request + a.toNat = ts.count .answer + b.toNat := by
  induction h with
  | nil => simp
  | request _ ih =>
      simp only [List.count_cons_self, List.count_cons_of_ne, ne_eq, reduceCtorEq,
        not_false_eq_true, Bool.toNat_true, Bool.toNat_false] at ih ⊢
      omega
  | answer _ ih =>
      simp only [List.count_cons_self, List.count_cons_of_ne, ne_eq, reduceCtorEq,
        not_false_eq_true, Bool.toNat_true, Bool.toNat_false] at ih ⊢
      omega

/-- After a request the next turn is the peer's. -/
theorem answer_mem {before between after : List Turn}
    (h : Alternating a (before ++ .request :: between ++ .request :: after) b) :
    .answer ∈ between := by
  rw [List.append_assoc] at h
  obtain ⟨awaited, -, h⟩ := h.split
  rw [List.cons_append] at h
  cases h with
  | request h =>
      cases between with
      | nil => cases h
      | cons t between =>
          cases h
          exact List.mem_cons_self

end Alternating

/-! One side. -/

namespace Standing

theorem alternating_wish (s : Standing) (enable : Bool) :
    Alternating s.isPending (turnsOf s (s.wish enable).1 [] (s.wish enable).2.words)
      (s.wish enable).1.isPending := by
  cases s <;> cases enable
  case off.true => exact .request (.nil true)
  case on.false => exact .request (.nil true)
  all_goals exact .nil _

theorem alternating_hear (s : Standing) (agree w : Bool) :
    Alternating s.isPending (turnsOf s (s.hear agree w).1 [w] (s.hear agree w).2.words)
      (s.hear agree w).1.isPending := by
  cases s with
  | off | on => cases agree <;> cases w <;> exact .nil false
  | disabling | enabling => cases agree <;> cases w <;> exact .answer (.nil false)
  | disablingThenEnable =>
      -- a refusal lets the wish through that waited for it
      cases w with
      | false => cases agree <;> exact .answer (.request (.nil true))
      | true => cases agree <;> exact .answer (.nil false)
  | enablingThenDisable =>
      cases w with
      | false => cases agree <;> exact .answer (.nil false)
      | true => cases agree <;> exact .answer (.request (.nil true))

end Standing

theorem reactionBytes_eq_nil {r : Reaction} (h : r.words = []) (side : Side) (o : OptionCode) :
    Engine.reactionBytes side o r = [] := by
  cases r <;> first | rfl | contradiction

/-! One engine. -/

/-- One byte completes no more than one word. -/
theorem Reader.words_readCommand (r : Reader) (b : UInt8) (side : Side) (o : OptionCode) :
    words side o (r.readCommand b).2 = [] := by
  unfold Reader.readCommand
  repeat' split
  all_goals rfl

@[inherit_doc Reader.words_readCommand] theorem Reader.words_read (r : Reader) (b : UInt8)
    (side : Side) (o : OptionCode) :
    words side o (r.read b).2 = [] ∨ ∃ w, words side o (r.read b).2 = [w] := by
  unfold Reader.read
  split
  · left
    split <;> rfl
  · left
    split <;> rfl
  · left
    exact r.words_readCommand b side o
  next s enable _ =>
      by_cases h : s = side ∧ (⟨b⟩ : OptionCode) = o
      · obtain ⟨rfl, rfl⟩ := h
        exact Or.inr ⟨enable, words_word_self ..⟩
      · exact Or.inl (words_word_of_ne enable h)
  · left
    split <;> rfl
  · left
    split
    · rfl
    · split
      · rfl
      · exact Reader.words_readCommand _ b side o

/-- What some bytes that an engine sends say about one side of an option. -/
def said (side : Side) (o : OptionCode) (sent : List UInt8) : List Bool :=
  words side.other o (Reader.tokens { limit := 0 } sent)

theorem said_eq {sent : List UInt8} {us : List Token} (h : Reads 0 sent us) (side : Side)
    (o : OptionCode) : said side o sent = words side.other o us := by
  rw [said, (h { limit := 0 } rfl rfl).2]

namespace Engine

/-- The turns that are taken when one byte is read. -/
def stepTurns (e : Engine) (side : Side) (o : OptionCode) (b : UInt8) : List Turn :=
  turnsOf (e.options.standing o side) ((e.step b).1.options.standing o side)
    (words side o (e.reader.read b).2) (said side o (e.step b).2.sent)

def decodeTurns (e : Engine) (side : Side) (o : OptionCode) : List UInt8 → List Turn
  | [] => []
  | b :: rest => e.stepTurns side o b ++ (e.step b).1.decodeTurns side o rest

/-- The turns that are taken in a call.  Only decoding hears anything. -/
def callTurns (e : Engine) (side : Side) (o : OptionCode) : Call → List Turn
  | .decode bytes => e.decodeTurns side o bytes
  | c => turnsOf (e.options.standing o side) ((e.call c).1.options.standing o side) []
      (said side o (e.call c).2.sent)

/-- The turns that are taken in a run of calls. -/
def turns (e : Engine) (side : Side) (o : OptionCode) : List Call → List Turn
  | [] => []
  | c :: rest => e.callTurns side o c ++ (e.call c).1.turns side o rest

variable {o : OptionCode}

def isPending (e : Engine) (o : OptionCode) (side : Side) : Bool :=
  (e.options.standing o side).isPending

theorem alternating_stepTurns (e : Engine) (ho : o ≠ .timingMark) (side : Side) (b : UInt8) :
    Alternating (e.isPending o side) (e.stepTurns side o b) ((e.step b).1.isPending o side) := by
  obtain ⟨us, hheeds⟩ := Heeds.step 0 e b
  have hstanding := hheeds.standing o ho side
  have hanswers := hheeds.answers o ho side
  unfold stepTurns isPending
  rw [said_eq hheeds.reads, hanswers, hstanding]
  rcases e.reader.words_read b side o with hnone | ⟨w, hone⟩
  · rw [hnone]
    simpa [Standing.heed, Standing.answers, turnsOf] using Alternating.nil _
  · rw [hone]
    simpa [Standing.heed, Standing.answers] using Standing.alternating_hear _ _ w

theorem alternating_decodeTurns (e : Engine) (ho : o ≠ .timingMark) (side : Side)
    (bytes : List UInt8) :
    Alternating (e.isPending o side) (e.decodeTurns side o bytes)
      ((e.decode bytes).1.isPending o side) := by
  induction bytes generalizing e with
  | nil => exact .nil _
  | cons b bytes ih => exact (e.alternating_stepTurns ho side b).append (ih (e.step b).1)

end Engine

/-- Calls that ask, allow or listen. -/
def Call.Negotiates : Call → Prop
  | .request .. => True
  | .permit .. => True
  | .decode _ => True
  | _ => False

instance : DecidablePred Call.Negotiates
  | .request _ _ _ | .permit _ _ _ | .decode _ => .isTrue trivial
  | .encode _ | .urgent | .command _ | .timingMark | .subnegotiation _ _ | .resize _ _
  | .setTerminalType _ | .setTerminalSpeed _ => .isFalse id

namespace Engine

variable {o : OptionCode}

theorem said_request (e : Engine) (side s : Side) (o p : OptionCode) (enable : Bool) :
    said side o (e.call (.request s p enable)).2.sent =
      if side = s ∧ o = p then ((e.options.standing o side).wish enable).2.words else [] := by
  rw [call_request, said_eq (reads_reactionBytes 0 s p _), reaction_wished]
  split
  next h =>
      obtain ⟨rfl, rfl⟩ := h
      exact words_map_word ..
  next h =>
      apply words_map_word_of_ne
      rintro ⟨hside, rfl⟩
      refine h ⟨?_, rfl⟩
      simpa using congrArg Side.other hside.symm

theorem alternating_request (e : Engine) (side s : Side) (o p : OptionCode) (enable : Bool) :
    Alternating (e.isPending o side) (e.callTurns side o (.request s p enable))
      ((e.call (.request s p enable)).1.isPending o side) := by
  change Alternating (e.options.standing o side).isPending
    (turnsOf (e.options.standing o side) ((e.wished s p enable).1.standing o side) []
      (said side o (e.call (.request s p enable)).2.sent))
    ((e.wished s p enable).1.standing o side).isPending
  rw [said_request]
  split
  next h =>
      obtain ⟨rfl, rfl⟩ := h
      rw [standing_wished]
      exact Standing.alternating_wish _ enable
  next h =>
      rw [standing_wished_of_ne e enable h]
      simpa [turnsOf] using Alternating.nil _

theorem alternating_callTurns (e : Engine) (ho : o ≠ .timingMark) (side : Side) {c : Call}
    (hc : c.Negotiates) :
    Alternating (e.isPending o side) (e.callTurns side o c) ((e.call c).1.isPending o side) := by
  cases c with
  | request s p enable => exact e.alternating_request side s o p enable
  | permit s p value =>
      have hstanding : (e.call (.permit s p value)).1.options.standing o side =
          e.options.standing o side := OptionTable.standing_permit ..
      unfold callTurns isPending
      rw [hstanding]
      simpa [turnsOf, said, call, Reader.tokens] using Alternating.nil _
  | decode bytes => exact e.alternating_decodeTurns ho side bytes
  | _ => exact hc.elim

theorem alternating_turns (e : Engine) (ho : o ≠ .timingMark) (side : Side) {calls : List Call}
    (hcalls : ∀ c ∈ calls, c.Negotiates) :
    Alternating (e.isPending o side) (e.turns side o calls)
      ((e.calls calls).1.isPending o side) := by
  induction calls generalizing e with
  | nil => exact .nil _
  | cons c calls ih =>
      have hfirst := e.alternating_callTurns ho side (hcalls c List.mem_cons_self)
      apply hfirst.append
      apply ih
      intro c' hc'
      exact hcalls c' (List.mem_cons_of_mem c hc')

/-- Of each side of an option there is at most one request outstanding: as many were
made as answered, and one more while an answer is awaited; then nothing more is asked
for, and between two requests comes an answer. -/
theorem one_request_outstanding (s : Setup) (ho : o ≠ .timingMark) (side : Side)
    {calls : List Call} (hcalls : ∀ c ∈ calls, c.Negotiates) :
    let e := (s.engine.calls calls).1
    let turns := s.engine.turns side o calls
    turns.count .request = turns.count .answer + (e.isPending o side).toNat ∧
      (e.isPending o side = true → ∀ enable, (e.call (.request side o enable)).2.sent = []) ∧
      ∀ before between after,
        turns = before ++ .request :: between ++ .request :: after → .answer ∈ between := by
  intro e turns
  have hidle : s.engine.isPending o side = false := by
    rw [isPending, Setup.standing_engine]
    rfl
  have halternating : Alternating false turns (e.isPending o side) := by
    rw [← hidle]
    exact s.engine.alternating_turns ho side hcalls
  refine ⟨halternating.count_request, ?_, ?_⟩
  · intro hpending enable
    rw [call_request, reaction_wished]
    exact reactionBytes_eq_nil (Standing.words_wish_of_isPending hpending enable) side o
  · intro before between after hturns
    rw [hturns] at halternating
    exact halternating.answer_mem

/-- A wish that waits for the answer, and a peer that says more than it was asked. -/
theorem one_request_outstanding_queued :
    let calls : List Call :=
      [.decode [255, 253, 1], .request .ours .echo true, .request .ours .echo false,
        .decode [255, 253, 1, 255, 253, 1, 255, 254, 1], .request .ours .echo true]
    let e := ((Setup.engine {}).calls calls).1
    let turns := (Setup.engine {}).turns .ours .echo calls
    (∀ c ∈ calls, c.Negotiates) ∧
      turns = [.request, .answer, .request, .answer, .request] ∧
      turns.count .request = turns.count .answer + (e.isPending .echo .ours).toNat ∧
      e.isPending .echo .ours = true ∧ (e.call (.request .ours .echo false)).2.sent = [] := by
  intro calls e turns
  have hcalls : ∀ c ∈ calls, c.Negotiates := by decide
  have ho : OptionCode.echo ≠ .timingMark := by decide
  have hpending : e.isPending .echo .ours = true := by decide +kernel
  have hturns : turns = [.request, .answer, .request, .answer, .request] := by decide +kernel
  obtain ⟨hcount, hnothing, -⟩ := one_request_outstanding {} ho .ours hcalls
  exact ⟨hcalls, hturns, hcount, hpending, hnothing hpending false⟩

end Engine

end RemoteConsole.Telnet
