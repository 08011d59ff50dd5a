/-
The byte stream as a reader divides it.  An engine reads bytes one at a time but
acts on whole tokens, and which tokens a stream holds depends on nothing that is
negotiated.
-/
import RemoteConsole.Telnet.Engine

namespace RemoteConsole.Telnet

/-- What a byte stream is made of. -/
inductive Token where
  /-- A byte of data; a doubled 255 is one. -/
  | data (b : UInt8)
  /-- A command other than negotiation. -/
  | command (c : Command)
  /-- A negotiation command, as the end that hears it sees it. -/
  | word (side : Side) (o : OptionCode) (enable : Bool)
  /-- A subnegotiation: what was kept of its option code and payload. -/
  | frame (kept : List UInt8)
deriving DecidableEq, Repr

/-- Where the reading of a stream stands. -/
structure Reader where
  decoder : Decoder := .idle
  received : Log UInt8 := .empty
  limit : Nat

namespace Reader

/-- Keep a byte of a subnegotiation, if there is room. -/
def keep (r : Reader) (b : UInt8) : Reader :=
  if r.received.length > r.limit then r else { r with received := r.received.add b }

/-- Read the byte after IAC. -/
def readCommand (r : Reader) (b : UInt8) : Reader × List Token :=
  if b = iac then ({ r with decoder := .idle }, [.data iac])
  else if b = Command.do.code then ({ r with decoder := .negotiating .ours true }, [])
  else if b = Command.dont.code then ({ r with decoder := .negotiating .ours false }, [])
  else if b = Command.will.code then ({ r with decoder := .negotiating .theirs true }, [])
  else if b = Command.wont.code then ({ r with decoder := .negotiating .theirs false }, [])
  else if b = Command.subnegotiation.code then
    ({ r with decoder := .subnegotiating, received := .empty }, [])
  else ({ r with decoder := .idle }, [.command ⟨b⟩])

/-- Read one byte.  A carriage return is data like any other. -/
def read (r : Reader) (b : UInt8) : Reader × List Token :=
  match r.decoder with
  | .idle | .carriageReturn =>
      if b = iac then ({ r with decoder := .command }, [])
      else ({ r with decoder := .idle }, [.data b])
  | .command => r.readCommand b
  | .negotiating side enable => ({ r with decoder := .idle }, [.word side ⟨b⟩ enable])
  | .subnegotiating =>
      if b = iac then ({ r with decoder := .subnegotiatingCommand }, []) else (r.keep b, [])
  | .subnegotiatingCommand =>
      if b = iac then ({ r with decoder := .subnegotiating }.keep iac, [])
      else if b = Command.subnegotiationEnd.code then
        ({ r with decoder := .idle, received := .empty }, [.frame r.received.toList])
      else
        let next := { r with decoder := .command, received := .empty }.readCommand b
        (next.1, .frame r.received.toList :: next.2)

/-- The reader once it has read some bytes. -/
def after (r : Reader) : List UInt8 → Reader
  | [] => r
  | b :: rest => (r.read b).1.after rest

/-- The tokens that some bytes complete. -/
def tokens (r : Reader) : List UInt8 → List Token
  | [] => []
  | b :: rest => (r.read b).2 ++ (r.read b).1.tokens rest

theorem after_append (r : Reader) (x y : List UInt8) :
    r.after (x ++ y) = (r.after x).after y := by
  induction x generalizing r with
  | nil => rfl
  | cons b x ih => exact ih (r.read b).1

theorem tokens_append (r : Reader) (x y : List UInt8) :
    r.tokens (x ++ y) = r.tokens x ++ (r.after x).tokens y := by
  induction x generalizing r with
  | nil => rfl
  | cons b x ih => simp [tokens, after, ih]

@[simp] theorem limit_keep (r : Reader) (b : UInt8) : (r.keep b).limit = r.limit := by
  unfold keep
  split <;> rfl

@[simp] theorem decoder_keep (r : Reader) (b : UInt8) :
    (r.keep b).decoder = r.decoder := by
  unfold keep
  split <;> rfl

/-- Setting the decoder to what it is changes nothing. -/
theorem with_decoder (r : Reader) {d : Decoder} (hd : r.decoder = d) :
    { r with decoder := d } = r := by
  subst hd
  rfl

@[simp] theorem limit_readCommand (r : Reader) (b : UInt8) :
    (r.readCommand b).1.limit = r.limit := by
  unfold readCommand
  repeat' split
  all_goals rfl

@[simp] theorem limit_read (r : Reader) (b : UInt8) : (r.read b).1.limit = r.limit := by
  unfold read
  repeat' split
  all_goals simp

theorem decoder_readCommand (r : Reader) (b : UInt8) (hb : b ≠ iac) :
    (r.readCommand b).1.decoder ≠ .carriageReturn ∧ ∀ c, .data c ∉ (r.readCommand b).2 := by
  unfold readCommand
  rw [if_neg hb]
  repeat' split
  all_goals simp

/-- The reader is never after a carriage return, and between commands after data. -/
theorem decoder_read (r : Reader) (b : UInt8) :
    (r.read b).1.decoder ≠ .carriageReturn ∧
      ∀ c, .data c ∈ (r.read b).2 → (r.read b).1.decoder = .idle := by
  unfold read
  split
  · split <;> simp
  · split <;> simp
  · by_cases hb : b = iac
    · simp [readCommand, hb]
    · obtain ⟨hdecoder, hdata⟩ := r.decoder_readCommand b hb
      exact ⟨hdecoder, fun c hc => absurd hc (hdata c)⟩
  · simp
  next hr => split <;> simp [hr]
  next hr =>
      split
      · simp
      · split
        · simp
        next hb _ =>
            obtain ⟨hdecoder, hdata⟩ :=
              { r with decoder := .command, received := .empty }.decoder_readCommand b hb
            exact ⟨hdecoder, fun c hc => absurd hc (by simpa using hdata c)⟩

end Reader

namespace Engine

/-- Where an engine stands in its stream. -/
def reader (e : Engine) : Reader where
  decoder := if e.decoder = .carriageReturn then .idle else e.decoder
  received := e.received
  limit := e.settings.subnegotiationLimit

/-- The engine with its reader moved on.  That a carriage return was the last
byte is not the reader's to forget. -/
def moved (e : Engine) (r : Reader) : Engine :=
  { e with
    decoder := if r.decoder = .idle ∧ e.decoder = .carriageReturn then .carriageReturn
      else r.decoder
    received := r.received }

/-- Act on a byte of data, unless it is the null of a carriage return. -/
def accept (e : Engine) (b : UInt8) : Engine × Output :=
  if e.decoder = .carriageReturn ∧ b = nul then ({ e with decoder := .idle }, {})
  else if b = cr ∧ e.readsBinary = false then
    ({ e with decoder := .carriageReturn }, e.deliver b)
  else ({ e with decoder := .idle }, e.deliver b)

/-- Act on a token. -/
def perform (e : Engine) : Token → Engine × Output
  | .data b => e.accept b
  | .command c => e.onCommand c
  | .word side o enable => e.onNegotiation side o enable
  | .frame [] => (e, {})
  | .frame (code :: payload) => e.interpret ⟨code⟩ payload

/-- Act on tokens in order. -/
def performAll (e : Engine) : List Token → Engine × Output
  | [] => (e, {})
  | t :: rest =>
      let (e', first) := e.perform t
      let (e'', others) := e'.performAll rest
      (e'', first ++ others)

@[simp] theorem performAll_nil (e : Engine) : e.performAll [] = (e, {}) := rfl

@[simp] theorem performAll_singleton (e : Engine) (t : Token) :
    e.performAll [t] = e.perform t := by
  simp [performAll]

/-- Setting the decoder to what it is changes nothing. -/
theorem with_decoder (e : Engine) {d : Decoder} (hd : e.decoder = d) :
    { e with decoder := d } = e := by
  subst hd
  rfl

theorem moved_reader (e : Engine) : e.moved e.reader = e := by
  by_cases hd : e.decoder = .carriageReturn
  · simpa [moved, reader, hd] using e.with_decoder hd
  · simp [moved, reader, hd]

theorem eq_empty_of_toList {l : Log UInt8} (h : l.toList = []) : l = .empty := by
  rcases l with ⟨entries, length, hlength⟩
  obtain rfl : entries = [] := by simpa [Log.toList] using h
  obtain rfl : length = 0 := hlength
  rfl

theorem endSubnegotiation_eq (e : Engine) :
    e.endSubnegotiation =
      { e with received := .empty }.perform (.frame e.received.toList) := by
  unfold endSubnegotiation
  cases hr : e.received.toList with
  | nil => rw [← eq_empty_of_toList hr]; rfl
  | cons code payload => rfl

/-- A subnegotiation changes at most what the peer has said of itself, wherever
the decoder stands. -/
theorem perform_frame (e : Engine) (d : Decoder) (l : Log UInt8) (kept : List UInt8) :
    { e with decoder := d, received := l }.perform (.frame kept) =
      ({ e with
          decoder := d
          received := l
          peer := (e.perform (.frame kept)).1.peer },
        (e.perform (.frame kept)).2) := by
  cases kept with
  | nil => rfl
  | cons code payload =>
      simp only [perform, interpret]
      repeat' split
      all_goals rfl

theorem keep_eq (e : Engine) (b : UInt8) (hd : e.decoder ≠ .carriageReturn) :
    e.keep b = e.moved (e.reader.keep b) := by
  simp only [keep, Reader.keep, reader, moved, hd]
  split <;> simp

theorem readData_eq (e : Engine) (b : UInt8) (hd : e.decoder = .idle) (hb : b ≠ iac) :
    e.readData b = e.accept b := by
  have hcr : ¬(e.decoder = .carriageReturn ∧ b = nul) := by simp [hd]
  simp only [readData, accept, hb, hcr, e.with_decoder hd, if_false]

/-- After a carriage return, a byte other than a null is read as any other. -/
theorem accept_of_ne_nul (e : Engine) (b : UInt8) (hb : b ≠ nul) :
    e.accept b = { e with decoder := .idle }.accept b := by
  simp only [accept, hb, and_false, if_false]
  rfl

theorem readCommand_eq (e : Engine) (b : UInt8) (hd : e.decoder = .command) :
    e.readCommand b = (e.moved (e.reader.readCommand b).1).performAll
      (e.reader.readCommand b).2 := by
  unfold readCommand Reader.readCommand
  by_cases h : b = iac
  · subst h
    simp [perform, accept, moved, reader, hd, deliver, iac, cr]
  · repeat' split
    all_goals simp_all [perform, moved, reader]

theorem step_subnegotiatingCommand (e : Engine) (b : UInt8)
    (hd : e.decoder = .subnegotiatingCommand) :
    e.step b = (e.moved (e.reader.read b).1).performAll (e.reader.read b).2 := by
  have hr : e.reader.decoder = .subnegotiatingCommand := by simp [reader, hd]
  unfold step Reader.read
  rw [hd, hr]
  simp only
  split
  · rw [keep_eq _ _ (by simp)]
    simp [moved, reader, hd]
  · split
    · rw [endSubnegotiation_eq]
      simp [moved, hd, reader]
    · -- the frame is acted on first, then the byte is read as after any IAC
      rw [endSubnegotiation_eq, perform_frame e e.decoder .empty, readCommand_eq _ _ rfl]
      simp only [performAll, moved, hd, reader, reduceCtorEq, and_false, if_false]
      generalize Reader.readCommand _ b = next
      rw [perform_frame e next.1.decoder next.1.received]

/-- An engine acts on the tokens of its stream, and on nothing else. -/
theorem step_eq (e : Engine) (b : UInt8) :
    e.step b = (e.moved (e.reader.read b).1).performAll (e.reader.read b).2 := by
  cases hd : e.decoder with
  | idle =>
      have hr : e.reader.decoder = .idle := by simp [reader, hd]
      by_cases h : b = iac
      · simp [step, readData, Reader.read, reader, moved, hd, h]
      · have hm : e.moved { e.reader with decoder := .idle } = e := by
          rw [← hr]
          exact e.moved_reader
        simp [step, Reader.read, hr, hd, h, hm, perform, readData_eq e b hd h]
  | carriageReturn =>
      have hr : e.reader.decoder = .idle := by simp [reader, hd]
      by_cases h : b = iac
      · simp [step, readData, Reader.read, reader, moved, hd, h, iac, nul]
      · have hm : e.moved { e.reader with decoder := .idle } = e := by
          rw [← hr]
          exact e.moved_reader
        by_cases hb : b = nul
        · simp [step, Reader.read, hr, hd, hm, hb, perform, accept, iac, nul]
        · simp [step, Reader.read, hr, hd, h, hm, hb, perform, readData_eq,
            e.accept_of_ne_nul b hb]
  | command =>
      have hr : e.reader.decoder = .command := by simp [reader, hd]
      simpa [step, hd, Reader.read, hr] using readCommand_eq e b hd
  | negotiating side enable => simp [step, Reader.read, reader, moved, perform, hd]
  | subnegotiating =>
      have hr : e.reader.decoder = .subnegotiating := by simp [reader, hd]
      by_cases h : b = iac
      · simp [step, Reader.read, reader, moved, hd, h]
      · simp [step, Reader.read, hr, hd, h, keep_eq]
  | subnegotiatingCommand => exact e.step_subnegotiatingCommand b hd

/-- What acting on a token establishes, if it carries over from one act to the next and
the reader has no part in it, decoding establishes. -/
theorem decode_induction {R : Engine → Engine × Output → Prop} (hnil : ∀ e, R e (e, {}))
    (htrans : ∀ e next last, R e next → R next.1 last → R e (last.1, next.2 ++ last.2))
    (hmoved : ∀ e r next, R (e.moved r) next → R e next)
    (hperform : ∀ e t, R e (e.perform t)) (e : Engine) (bytes : List UInt8) :
    R e (e.decode bytes) := by
  have hperformAll : ∀ e ts, R e (e.performAll ts) := by
    intro e ts
    induction ts generalizing e with
    | nil => exact hnil e
    | cons t ts ih =>
        apply htrans
        · exact hperform e t
        · exact ih (e.perform t).1
  have hstep : ∀ e b, R e (e.step b) := by
    intro e b
    rw [step_eq]
    apply hmoved
    exact hperformAll _ _
  induction bytes generalizing e with
  | nil => exact hnil e
  | cons b bytes ih =>
      apply htrans
      · exact hstep e b
      · exact ih (e.step b).1

theorem reader_moved (e : Engine) (r : Reader) (hd : r.decoder ≠ .carriageReturn)
    (hlimit : r.limit = e.settings.subnegotiationLimit) : (e.moved r).reader = r := by
  rcases r with ⟨decoder, received, limit⟩
  obtain rfl : limit = e.settings.subnegotiationLimit := hlimit
  by_cases h : decoder = .idle ∧ e.decoder = .carriageReturn
  · simp [moved, reader, h]
  · simp only [moved, reader, h, if_false]
    rw [if_neg hd]

theorem reader_accept (e : Engine) (b : UInt8) (hd : e.reader.decoder = .idle) :
    (e.accept b).1.reader = e.reader := by
  have hreader : e.reader = ⟨.idle, e.received, e.settings.subnegotiationLimit⟩ := by
    rw [← hd]
    rfl
  rw [hreader]
  unfold accept
  repeat' split
  all_goals rfl

theorem reader_perform (e : Engine) (t : Token)
    (h : ∀ b, t = .data b → e.reader.decoder = .idle) :
    (e.perform t).1.reader = e.reader := by
  cases t with
  | data b => exact e.reader_accept b (h b rfl)
  | command c =>
      simp only [perform, onCommand]
      repeat' split
      all_goals rfl
  | word side o enable =>
      simp only [perform, onNegotiation, hearTimingMark, hear]
      repeat' split
      all_goals rfl
  | frame kept =>
      rw [perform_frame e e.decoder e.received kept]
      rfl

theorem reader_performAll (e : Engine) (ts : List Token)
    (h : ∀ b, .data b ∈ ts → e.reader.decoder = .idle) :
    (e.performAll ts).1.reader = e.reader := by
  induction ts generalizing e with
  | nil => rfl
  | cons t ts ih =>
      have hfirst : (e.perform t).1.reader = e.reader :=
        e.reader_perform t fun b hb => h b (hb ▸ List.mem_cons_self)
      have hrest := ih (e.perform t).1 fun b hb => by
        rw [hfirst]
        exact h b (List.mem_cons_of_mem t hb)
      exact hrest.trans hfirst

/-- The engine's reader moves as its bytes alone determine. -/
theorem reader_step (e : Engine) (b : UInt8) :
    (e.step b).1.reader = (e.reader.read b).1 := by
  obtain ⟨hdecoder, hdata⟩ := e.reader.decoder_read b
  have hmoved : (e.moved (e.reader.read b).1).reader = (e.reader.read b).1 :=
    e.reader_moved _ hdecoder (Reader.limit_read _ b)
  rw [step_eq, reader_performAll _ _ fun c hc => by rw [hmoved]; exact hdata c hc]
  exact hmoved

theorem reader_decode (e : Engine) (bytes : List UInt8) :
    (e.decode bytes).1.reader = e.reader.after bytes := by
  induction bytes generalizing e with
  | nil => rfl
  | cons b bytes ih =>
      have hrest := ih (e.step b).1
      rw [reader_step] at hrest
      exact hrest

end Engine

end RemoteConsole.Telnet
