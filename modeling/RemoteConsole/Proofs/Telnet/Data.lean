/-
Data among negotiation.  What an engine yields as data depends on nothing but the
data in its stream and the mode that it reads in.
-/
import RemoteConsole.Proofs.Telnet.Heeding

namespace RemoteConsole.Telnet

namespace Engine

theorem step_data (e : Engine) {b : UInt8} (hd : e.decoder = .idle)
    (hs : e.synchronizing = 0) (hiac : b ≠ iac) (hcr : ¬(b = cr ∧ e.readsBinary = false)) :
    e.step b = (e, { clean := [b] }) := by
  simp [step, hd, readData, hiac, hcr, deliver, hs]

theorem step_return (e : Engine) (hd : e.decoder = .idle) (hs : e.synchronizing = 0)
    (hmode : e.readsBinary = false) :
    e.step cr = ({ e with decoder := .carriageReturn }, { clean := [cr] }) := by
  have hiac : cr ≠ iac := by decide
  simp [step, hd, readData, hiac, hmode, deliver, hs]

/-- A null after a carriage return is no data. -/
theorem step_padding (e : Engine) (hd : e.decoder = .idle) :
    { e with decoder := .carriageReturn }.step nul = (e, {}) := by
  simpa [step] using e.with_decoder hd

theorem step_lineFeed (e : Engine) (hd : e.decoder = .idle) (hs : e.synchronizing = 0) :
    { e with decoder := .carriageReturn }.step lf = (e, { clean := [lf] }) := by
  have hnul : lf ≠ nul := by decide
  have hiac : lf ≠ iac := by decide
  have hcr : lf ≠ cr := by decide
  simpa [step, readData, hnul, hiac, hcr, deliver, hs] using e.with_decoder hd

theorem decode_doubled (e : Engine) (hd : e.decoder = .idle) (hs : e.synchronizing = 0) :
    e.decode [iac, iac] = (e, { clean := [iac] }) := by
  have hfirst : e.step iac = ({ e with decoder := .command }, {}) := by
    simp [step, hd, readData]
  have hsecond : { e with decoder := .command }.step iac = (e, { clean := [iac] }) := by
    simpa [step, readCommand, deliver, hs] using e.with_decoder hd
  simp [decode, hfirst, hsecond]

theorem decode_cons_clean {e e' : Engine} {b : UInt8} {x : List UInt8} {data : List UInt8}
    (hstep : e.step b = (e', { clean := [b] })) {e'' : Engine}
    (hrest : e'.decode x = (e'', { clean := data })) :
    e.decode (b :: x) = (e'', { clean := b :: data }) := by
  simp only [decode, hstep, hrest]
  rfl

/-- Data that was escaped for an engine's mode comes out as it was; after a carriage
return too, if that was left to stand before a line feed. -/
theorem decode_escape_after (e : Engine) (hd : e.decoder = .idle)
    (hs : e.synchronizing = 0) (data : List UInt8) :
    e.decode (escape e.readsBinary data) = (e, { clean := data }) ∧
      (data.head? = some lf →
        { e with decoder := .carriageReturn }.decode (escape e.readsBinary data) =
          (e, { clean := data })) := by
  -- both at once: a carriage return before a line feed leaves the decoder after it
  induction data with
  | nil =>
      constructor
      · rfl
      · intro hhead
        simp at hhead
  | cons b rest ih =>
      obtain ⟨ih, ihreturn⟩ := ih
      constructor
      · rw [escape]
        split
        next hb =>
            subst hb
            change e.decode ([iac, iac] ++ escape e.readsBinary rest) = _
            rw [decode_append, e.decode_doubled hd hs, ih]
            rfl
        next hb =>
            by_cases hcr : b = cr ∧ e.readsBinary = false
            · obtain ⟨rfl, hmode⟩ := hcr
              split
              next =>
                  have hpad := e.step_padding hd
                  have hnul : { e with decoder := .carriageReturn }.decode
                      (nul :: escape e.readsBinary rest) = (e, { clean := rest }) := by
                    simp [decode, hpad, ih]
                  exact decode_cons_clean (e.step_return hd hs hmode) hnul
              next hlf =>
                  have hhead : rest.head? = some lf := by
                    by_contra hne
                    exact hlf ⟨rfl, hmode, hne⟩
                  exact decode_cons_clean (e.step_return hd hs hmode) (ihreturn hhead)
            · have hpad : ¬(b = cr ∧ e.readsBinary = false ∧ rest.head? ≠ some lf) := by
                intro h
                exact hcr ⟨h.1, h.2.1⟩
              rw [if_neg hpad]
              exact decode_cons_clean (e.step_data hd hs hb hcr) ih
      · intro hhead
        obtain rfl : b = lf := by simpa using hhead
        have hescape : escape e.readsBinary (lf :: rest) =
            lf :: escape e.readsBinary rest := by
          have hiac : lf ≠ iac := by decide
          have hcr : lf ≠ cr := by decide
          simp [escape, hiac, hcr]
        rw [hescape]
        exact decode_cons_clean (e.step_lineFeed hd hs) ih

theorem decode_escape (e : Engine) (hd : e.decoder = .idle) (hs : e.synchronizing = 0)
    (data : List UInt8) :
    e.decode (escape e.readsBinary data) = (e, { clean := data }) :=
  (e.decode_escape_after hd hs data).1

end Engine

/-! What is not data. -/

namespace Token

def isData : Token → Bool
  | .data _ => true
  | _ => false

/-- How many Data Marks a token is. -/
def marks : Token → Nat
  | .command c => if c = .dataMark then 1 else 0
  | _ => 0

/-- The command that is reported for a token. -/
def report? : Token → Option Command
  | .command c => if c = .subnegotiationEnd ∨ c.isKnown = false then none else some c
  | _ => none

theorem Negotiates.not_data {t : Token} (h : t.Negotiates) : t.isData = false := by
  cases t with
  | data => exact h.elim
  | _ => rfl

end Token

def Event.command? : Event → Option Command
  | .command c => some c
  | _ => none

/-- The commands that are reported. -/
def Output.commands (out : Output) : List Command :=
  out.events.filterMap Event.command?

@[simp] theorem Output.commands_append (a b : Output) :
    (a ++ b).commands = a.commands ++ b.commands := by
  simp [Output.commands]

namespace Engine

theorem onCommand_commands (e : Engine) (c : Command) :
    (e.onCommand c).2.clean = [] ∧
      (e.onCommand c).2.commands = [Token.command c].filterMap Token.report? := by
  unfold onCommand
  by_cases h : c = .subnegotiationEnd ∨ c.isKnown = false
  · simp [h, Output.commands, Token.report?]
  · simp [h, Output.commands, Token.report?, Event.command?]

theorem onCommand_fst (e : Engine) (c : Command) :
    (e.onCommand c).1 =
      { e with synchronizing := e.synchronizing - (Token.command c).marks } := by
  by_cases hmark : c = .dataMark
  · subst hmark
    rfl
  · have hmarks : (Token.command c).marks = 0 := if_neg hmark
    rw [hmarks]
    unfold onCommand
    split
    · rfl
    · simp

theorem onNegotiation_fst (e : Engine) (side : Side) (o : OptionCode) (enable : Bool) :
    ∃ options, (e.onNegotiation side o enable).1 = { e with options } := by
  unfold onNegotiation hearTimingMark
  repeat' split
  · exact ⟨e.options, rfl⟩
  · exact ⟨_, e.fst_hear ..⟩
  · exact ⟨_, rfl⟩
  · exact ⟨_, e.fst_hear ..⟩

theorem hear_silent (e : Engine) (side : Side) (o : OptionCode) (enable : Bool) :
    (e.hear side o enable).2.clean = [] ∧ (e.hear side o enable).2.commands = [] := by
  rw [hear_eq]
  dsimp only
  split <;> simp [Output.commands, Event.command?]

theorem onNegotiation_silent (e : Engine) (side : Side) (o : OptionCode) (enable : Bool) :
    (e.onNegotiation side o enable).2.clean = [] ∧
      (e.onNegotiation side o enable).2.commands = [] := by
  unfold onNegotiation hearTimingMark
  repeat' split
  · exact ⟨rfl, rfl⟩
  · exact e.hear_silent ..
  · exact ⟨rfl, rfl⟩
  · exact e.hear_silent ..

theorem interpret_silent (e : Engine) (o : OptionCode) (payload : List UInt8) :
    (e.interpret o payload).2.clean = [] ∧ (e.interpret o payload).2.commands = [] := by
  unfold interpret
  repeat' split
  all_goals simp [Output.commands, Event.command?]

theorem perform_of_not_data (e : Engine) {t : Token} (ht : t.isData = false) :
    (e.perform t).2.clean = [] ∧ (e.perform t).2.commands = [t].filterMap Token.report? ∧
      ∃ options peer, (e.perform t).1 =
        { e with options, peer, synchronizing := e.synchronizing - t.marks } := by
  cases t with
  | data => contradiction
  | command c =>
      obtain ⟨hclean, hcommands⟩ := e.onCommand_commands c
      exact ⟨hclean, hcommands, e.options, e.peer, e.onCommand_fst c⟩
  | word side o enable =>
      obtain ⟨hclean, hcommands⟩ := e.onNegotiation_silent side o enable
      obtain ⟨options, hfst⟩ := e.onNegotiation_fst side o enable
      exact ⟨hclean, hcommands, options, e.peer, hfst⟩
  | frame kept =>
      have hsilent : (e.perform (.frame kept)).2.clean = [] ∧
          (e.perform (.frame kept)).2.commands = [] := by
        cases kept with
        | nil => exact ⟨rfl, rfl⟩
        | cons code payload => exact e.interpret_silent ⟨code⟩ payload
      have hfst := congrArg Prod.fst (e.perform_frame e.decoder e.received kept)
      exact ⟨hsilent.1, hsilent.2, e.options, _, hfst⟩

end Engine

/-- Acting on tokens that are no data yields nothing but what they report. -/
structure Silent (e : Engine) (ts : List Token) (e' : Engine) (out : Output) : Prop where
  clean : out.clean = []
  commands : out.commands = ts.filterMap Token.report?
  synchronizing : e.synchronizing = 0 → e'.synchronizing = 0
  decoder : e.decoder ≠ .carriageReturn → e'.decoder ≠ .carriageReturn

namespace Silent

theorem nil {e e' : Engine} (hs : e'.synchronizing = e.synchronizing)
    (hd : e.decoder ≠ .carriageReturn → e'.decoder ≠ .carriageReturn) :
    Silent e [] e' {} where
  clean := rfl
  commands := rfl
  synchronizing h := hs.trans h
  decoder := hd

theorem trans {e e' e'' : Engine} {ts ts' : List Token} {out out' : Output}
    (h : Silent e ts e' out) (h' : Silent e' ts' e'' out') :
    Silent e (ts ++ ts') e'' (out ++ out') where
  clean := by rw [Output.clean_append, h.clean, h'.clean]; rfl
  commands := by rw [Output.commands_append, h.commands, h'.commands, List.filterMap_append]
  synchronizing hs := h'.synchronizing (h.synchronizing hs)
  decoder hd := h'.decoder (h.decoder hd)

theorem perform (e : Engine) {t : Token} (ht : t.isData = false) :
    Silent e [t] (e.perform t).1 (e.perform t).2 := by
  obtain ⟨hclean, hcommands, options, peer, hfst⟩ := e.perform_of_not_data ht
  refine ⟨hclean, hcommands, ?_, ?_⟩
  · intro hs
    rw [hfst]
    change e.synchronizing - t.marks = 0
    omega
  · intro hd
    rw [hfst]
    exact hd

theorem performAll (e : Engine) {ts : List Token} (hts : ∀ t ∈ ts, t.isData = false) :
    Silent e ts (e.performAll ts).1 (e.performAll ts).2 := by
  induction ts generalizing e with
  | nil => exact nil rfl id
  | cons t ts ih =>
      have hfirst := perform e (hts t List.mem_cons_self)
      have hrest := ih (e.perform t).1 fun t' ht' => hts t' (List.mem_cons_of_mem t ht')
      exact hfirst.trans hrest

theorem step (e : Engine) {b : UInt8} (hts : ∀ t ∈ (e.reader.read b).2, t.isData = false) :
    Silent e (e.reader.read b).2 (e.step b).1 (e.step b).2 := by
  rw [Engine.step_eq]
  have hmoved : Silent e [] (e.moved (e.reader.read b).1) {} := by
    refine nil rfl ?_
    intro hd
    have hread := (e.reader.decoder_read b).1
    simpa [Engine.moved, hd] using hread
  exact hmoved.trans (performAll _ hts)

theorem decode (e : Engine) {bytes : List UInt8}
    (hts : ∀ t ∈ e.reader.tokens bytes, t.isData = false) :
    Silent e (e.reader.tokens bytes) (e.decode bytes).1 (e.decode bytes).2 := by
  induction bytes generalizing e with
  | nil => exact nil rfl id
  | cons b bytes ih =>
      have hfirst := step e fun t ht => hts t (List.mem_append_left _ ht)
      have hreader := e.reader_step b
      have hrest := ih (e.step b).1 fun t ht => by
        rw [hreader] at ht
        exact hts t (List.mem_append_right _ ht)
      rw [hreader] at hrest
      exact hfirst.trans hrest

end Silent

/-- An engine between commands is between commands again after whole messages, which
have yielded no data if there was none in them. -/
theorem Engine.decode_messages (e : Engine) {bytes : List UInt8} {ts : List Token}
    (hd : e.decoder = .idle) (hreads : Reads e.reader.limit bytes ts)
    (hts : ∀ t ∈ ts, t.isData = false) :
    (e.decode bytes).1.decoder = .idle ∧ Silent e ts (e.decode bytes).1 (e.decode bytes).2 := by
  have hidle : e.reader.decoder = .idle := by simp [reader, hd]
  obtain ⟨hwhole, htokens⟩ := hreads e.reader hidle rfl
  subst htokens
  have hsilent := Silent.decode e hts
  refine ⟨?_, hsilent⟩
  have hcr := hsilent.decoder (by simp [hd])
  rw [← reader_decode] at hwhole
  simpa [reader, hcr] using hwhole

/-! Modes. -/

/-- Two engines at the same place of the same stream, in the same mode. -/
structure Alike (e₁ e₂ : Engine) : Prop where
  settings : e₁.settings = e₂.settings
  decoder : e₁.decoder = e₂.decoder
  received : e₁.received = e₂.received
  synchronizing : e₁.synchronizing = e₂.synchronizing
  mode : e₁.readsBinary = e₂.readsBinary

theorem Engine.readsBinary_perform (e : Engine) {t : Token}
    (ht : words .theirs .binary [t] = []) : (e.perform t).1.readsBinary = e.readsBinary := by
  obtain ⟨us, hheeds⟩ := Heeds.perform 0 e t
  have hstanding := hheeds.standing .binary (by decide) .theirs
  rw [ht] at hstanding
  exact congrArg Standing.isOn hstanding

/-- An engine reads on in the mode it is in unless that is spoken of. -/
theorem Engine.readsBinary_decode (e : Engine) {bytes : List UInt8}
    (hbytes : words .theirs .binary (e.reader.tokens bytes) = []) :
    (e.decode bytes).1.readsBinary = e.readsBinary := by
  obtain ⟨us, hheeds⟩ := Heeds.decode 0 e bytes
  have hstanding := hheeds.standing .binary (by decide) .theirs
  rw [hbytes] at hstanding
  exact congrArg Standing.isOn hstanding

namespace Alike

variable {e₁ e₂ : Engine}

theorem reader (h : Alike e₁ e₂) : e₁.reader = e₂.reader := by
  simp [Engine.reader, h.settings, h.decoder, h.received]

theorem moved (h : Alike e₁ e₂) (r : Reader) : Alike (e₁.moved r) (e₂.moved r) where
  settings := h.settings
  decoder := by simp [Engine.moved, h.decoder]
  received := rfl
  synchronizing := h.synchronizing
  mode := h.mode

theorem accept (h : Alike e₁ e₂) (b : UInt8) :
    Alike (e₁.accept b).1 (e₂.accept b).1 ∧
      (e₁.accept b).2.clean = (e₂.accept b).2.clean := by
  have hdeliver : e₁.deliver b = e₂.deliver b := by
    unfold Engine.deliver
    rw [h.synchronizing]
  unfold Engine.accept
  rw [h.decoder, h.mode]
  split
  · exact ⟨⟨h.settings, rfl, h.received, h.synchronizing, h.mode⟩, rfl⟩
  split
  · exact ⟨⟨h.settings, rfl, h.received, h.synchronizing, h.mode⟩, by rw [hdeliver]⟩
  · exact ⟨⟨h.settings, rfl, h.received, h.synchronizing, h.mode⟩, by rw [hdeliver]⟩

theorem perform (h : Alike e₁ e₂) {t : Token} (ht : words .theirs .binary [t] = []) :
    Alike (e₁.perform t).1 (e₂.perform t).1 ∧
      (e₁.perform t).2.clean = (e₂.perform t).2.clean := by
  cases hdata : t.isData with
  | true =>
      cases t with
      | data b => exact h.accept b
      | _ => contradiction
  | false =>
      have hmode₁ := e₁.readsBinary_perform ht
      have hmode₂ := e₂.readsBinary_perform ht
      obtain ⟨hclean₁, -, options₁, peer₁, hfst₁⟩ := e₁.perform_of_not_data hdata
      obtain ⟨hclean₂, -, options₂, peer₂, hfst₂⟩ := e₂.perform_of_not_data hdata
      refine ⟨⟨?_, ?_, ?_, ?_, ?_⟩, hclean₁.trans hclean₂.symm⟩
      · rw [hfst₁, hfst₂]
        exact h.settings
      · rw [hfst₁, hfst₂]
        exact h.decoder
      · rw [hfst₁, hfst₂]
        exact h.received
      · rw [hfst₁, hfst₂]
        exact congrArg (· - t.marks) h.synchronizing
      · rw [hmode₁, hmode₂, h.mode]

theorem performAll (h : Alike e₁ e₂) {ts : List Token} (hts : words .theirs .binary ts = []) :
    Alike (e₁.performAll ts).1 (e₂.performAll ts).1 ∧
      (e₁.performAll ts).2.clean = (e₂.performAll ts).2.clean := by
  induction ts generalizing e₁ e₂ with
  | nil => exact ⟨h, rfl⟩
  | cons t ts ih =>
      rw [← List.singleton_append, words_append, List.append_eq_nil_iff] at hts
      obtain ⟨hfirst, hclean⟩ := h.perform hts.1
      obtain ⟨hrest, hclean'⟩ := ih hfirst hts.2
      exact ⟨hrest, congrArg₂ (· ++ ·) hclean hclean'⟩

theorem step (h : Alike e₁ e₂) {b : UInt8}
    (hb : words .theirs .binary (e₁.reader.read b).2 = []) :
    Alike (e₁.step b).1 (e₂.step b).1 ∧ (e₁.step b).2.clean = (e₂.step b).2.clean := by
  rw [Engine.step_eq, Engine.step_eq, ← h.reader]
  exact (h.moved _).performAll hb

/-- So long as nothing is said of the mode, both yield the same data. -/
theorem decode (h : Alike e₁ e₂) {bytes : List UInt8}
    (hbytes : words .theirs .binary (e₁.reader.tokens bytes) = []) :
    Alike (e₁.decode bytes).1 (e₂.decode bytes).1 ∧
      (e₁.decode bytes).2.clean = (e₂.decode bytes).2.clean := by
  induction bytes generalizing e₁ e₂ with
  | nil => exact ⟨h, rfl⟩
  | cons b bytes ih =>
      have hread : words .theirs .binary ((e₁.reader.read b).2 ++
          (e₁.reader.read b).1.tokens bytes) = [] := hbytes
      rw [words_append, List.append_eq_nil_iff, ← e₁.reader_step b] at hread
      obtain ⟨hfirst, hclean⟩ := h.step hread.1
      obtain ⟨hrest, hclean'⟩ := ih hfirst hread.2
      exact ⟨hrest, congrArg₂ (· ++ ·) hclean hclean'⟩

end Alike

end RemoteConsole.Telnet
