/-
What a peer can make an engine hold and report.  Whatever it sends and whatever the owner does
in between, no more of a subnegotiation than the limit is held or reported, and nothing of one
ever gets into another.
-/
import RemoteConsole.Proofs.Telnet.Frames

namespace RemoteConsole.Telnet

/-- Reports of what a subnegotiation held. -/
def Event.ofFrame : Event → Bool
  | .subnegotiation _ _ | .terminalType _ | .terminalSpeed _ | .windowSize _ _ => true
  | .command _ | .switched _ _ _ => false

/-- The value that an event reports, with its option. -/
def Event.value? : Event → Option (OptionCode × String)
  | .terminalType value => some (.terminalType, value)
  | .terminalSpeed value => some (.terminalSpeed, value)
  | .command _ | .switched _ _ _ | .subnegotiation _ _ | .windowSize _ _ => none

theorem Event.ofFrame_of_value? {event : Event} {o : OptionCode} {text : String}
    (h : event.value? = some (o, text)) : event.ofFrame = true := by
  cases event with
  | terminalType | terminalSpeed => rfl
  | command | switched | subnegotiation | windowSize => cases h

/-- What is told of subnegotiations, one after another: of each what as much of its payload as
the limit allows comes to.  Of one without an option code nothing is told. -/
inductive Told (limit : Nat) : List (List UInt8) → List Event → Prop where
  | nil : Told limit [] []
  | empty {frames : List (List UInt8)} {events : List Event} (h : Told limit frames events) :
      Told limit ([] :: frames) events
  | frame {e : Engine} {code : UInt8} {payload : List UInt8} {peer : Peer} {output : Output}
      {frames : List (List UInt8)} {events : List Event}
      (hfirst : Meaning e ⟨code⟩ (payload.take limit) peer output)
      (hrest : Told limit frames events) :
      Told limit ((code :: payload) :: frames) (output.events ++ events)

/-- A value that was taken from one of some subnegotiations: of its first bytes, as many as the
limit allows beside the byte that says that a value follows. -/
def TakenFrom (limit : Nat) (frames : List (List UInt8)) (o : OptionCode) (text : String) : Prop :=
  0 < limit ∧ ∃ value, o.code :: 0 :: value ∈ frames ∧
    text = Text.decodeLossy (value.take (limit - 1))

/-- What an engine holds and has reported, once it has heard some subnegotiations and the
beginning of one more. -/
structure Limited (limit : Nat) (frames : List (List UInt8)) (underway : List UInt8)
    (e : Engine) (events : List Event) : Prop where
  held : e.received.toList = underway.take (limit + 1)
  held_le : e.received.length ≤ limit + 1
  told : Told limit frames (events.filter Event.ofFrame)
  carried : ∀ o payload, .subnegotiation o payload ∈ events →
    payload.length ≤ limit ∧ ∃ sent, o.code :: sent ∈ frames ∧ payload = sent.take limit
  value : ∀ event ∈ events, ∀ o text, event.value? = some (o, text) →
    TakenFrom limit frames o text
  terminalType : ∀ text, e.peer.terminalType = some text →
    TakenFrom limit frames .terminalType text
  terminalSpeed : ∀ text, e.peer.terminalSpeed = some text →
    TakenFrom limit frames .terminalSpeed text

/-! What is told of a subnegotiation. -/

namespace Meaning

variable {e : Engine} {o p : OptionCode} {kept payload : List UInt8} {peer : Peer}
  {output : Output} {text : String}

theorem ofFrame (h : Meaning e o kept peer output) :
    output.events.filter Event.ofFrame = output.events := by
  cases h <;> rfl

theorem carried (h : Meaning e o kept peer output)
    (hmem : .subnegotiation p payload ∈ output.events) : p = o ∧ payload = kept := by
  cases h with
  | plain | shortSize => simpa using hmem
  | terminalType | terminalSpeed | windowSize => cases List.mem_singleton.mp hmem
  | typeAsked | speedAsked | malformed => cases hmem

theorem value (h : Meaning e o kept peer output) {event : Event} (hmem : event ∈ output.events)
    (hvalue : event.value? = some (p, text)) :
    p = o ∧ ∃ value, kept = 0 :: value ∧ text = Text.decodeLossy value := by
  cases h with
  | terminalType value | terminalSpeed value =>
      obtain rfl := List.mem_singleton.mp hmem
      cases hvalue
      exact ⟨rfl, value, rfl, rfl⟩
  | plain | windowSize | shortSize =>
      obtain rfl := List.mem_singleton.mp hmem
      cases hvalue
  | typeAsked | speedAsked | malformed => cases hmem

end Meaning

namespace Told

variable {limit : Nat} {frames frames' : List (List UInt8)} {events events' : List Event}

theorem append (h : Told limit frames events) (h' : Told limit frames' events') :
    Told limit (frames ++ frames') (events ++ events') := by
  induction h with
  | nil => exact h'
  | empty _ ih => exact .empty ih
  | frame hfirst _ ih =>
      rw [List.cons_append, List.append_assoc]
      exact .frame hfirst ih

theorem of_map_eq_nil (h : [] = frames.map (List.take (limit + 1))) : Told limit frames [] := by
  obtain rfl := List.map_eq_nil_iff.mp h.symm
  exact .nil

/-- What is told is told of one of the subnegotiations, by what was kept of it. -/
theorem exists_meaning (h : Told limit frames events) {event : Event} (hmem : event ∈ events) :
    ∃ e code payload peer output, code :: payload ∈ frames ∧
      Meaning e ⟨code⟩ (payload.take limit) peer output ∧ event ∈ output.events := by
  induction h with
  | nil => cases hmem
  | empty _ ih =>
      obtain ⟨e, code, payload, peer, output, hframe, h⟩ := ih hmem
      exact ⟨e, code, payload, peer, output, List.mem_cons_of_mem _ hframe, h⟩
  | frame hfirst _ ih =>
      rcases List.mem_append.mp hmem with hmem | hmem
      · exact ⟨_, _, _, _, _, List.mem_cons_self, hfirst, hmem⟩
      · obtain ⟨e, code, payload, peer, output, hframe, h⟩ := ih hmem
        exact ⟨e, code, payload, peer, output, List.mem_cons_of_mem _ hframe, h⟩

theorem carried (h : Told limit frames events) {o : OptionCode} {payload : List UInt8}
    (hmem : .subnegotiation o payload ∈ events) :
    payload.length ≤ limit ∧ ∃ sent, o.code :: sent ∈ frames ∧ payload = sent.take limit := by
  obtain ⟨e, code, sent, peer, output, hframe, hmeaning, hevent⟩ := h.exists_meaning hmem
  obtain ⟨rfl, rfl⟩ := hmeaning.carried hevent
  exact ⟨List.length_take_le _ _, sent, hframe, rfl⟩

theorem value (h : Told limit frames events) {event : Event} (hmem : event ∈ events)
    {o : OptionCode} {text : String} (hvalue : event.value? = some (o, text)) :
    TakenFrom limit frames o text := by
  obtain ⟨e, code, sent, peer, output, hframe, hmeaning, hevent⟩ := h.exists_meaning hmem
  obtain ⟨rfl, value, hkept, rfl⟩ := hmeaning.value hevent hvalue
  -- what was kept begins with the byte that says that a value follows
  cases limit with
  | zero => cases hkept
  | succ limit =>
      cases sent with
      | nil => cases hkept
      | cons b sent =>
          obtain ⟨rfl, rfl⟩ := List.cons.inj hkept
          exact ⟨Nat.succ_pos _, sent, hframe, rfl⟩

end Told

/-- What is known of the peer's values was known before, or has been reported since. -/
structure Reflects (before after : Peer) (events : List Event) : Prop where
  terminalType : ∀ text, after.terminalType = some text →
    before.terminalType = some text ∨ .terminalType text ∈ events
  terminalSpeed : ∀ text, after.terminalSpeed = some text →
    before.terminalSpeed = some text ∨ .terminalSpeed text ∈ events

namespace Reflects

theorem refl (peer : Peer) (events : List Event) : Reflects peer peer events where
  terminalType _ := .inl
  terminalSpeed _ := .inl

theorem trans {before between after : Peer} {events events' : List Event}
    (h : Reflects before between events) (h' : Reflects between after events') :
    Reflects before after (events ++ events') where
  terminalType text htext := by
    rw [List.mem_append, ← or_assoc]
    exact (h'.terminalType text htext).imp_left (h.terminalType text)
  terminalSpeed text htext := by
    rw [List.mem_append, ← or_assoc]
    exact (h'.terminalSpeed text htext).imp_left (h.terminalSpeed text)

end Reflects

theorem Meaning.reflects {e : Engine} {o : OptionCode} {kept : List UInt8} {peer : Peer}
    {output : Output} (h : Meaning e o kept peer output) :
    Reflects e.peer peer output.events := by
  cases h with
  | terminalType value =>
      exact ⟨fun text htext => .inr (by simpa [eq_comm] using htext), fun _ => .inl⟩
  | terminalSpeed value =>
      exact ⟨fun _ => .inl, fun text htext => .inr (by simpa [eq_comm] using htext)⟩
  | plain | windowSize | shortSize | typeAsked | speedAsked | malformed =>
      exact ⟨fun _ => .inl, fun _ => .inl⟩

/-- Whatever can be done with an engine. -/
inductive Operation where
  | call (c : Call)
  /-- Word from the peer that the owner hands over itself. -/
  | hear (side : Side) (o : OptionCode) (enable : Bool)
  /-- The owner puts another option table in place. -/
  | replaceOptions (options : OptionTable)

/-- The bytes that the peer has sent. -/
def Operation.heard : Operation → List UInt8
  | .call (.decode bytes) => bytes
  | _ => []

namespace Engine

variable {limit : Nat} {frames : List (List UInt8)}

theorem onNegotiation_frame (e : Engine) (side : Side) (o : OptionCode) (enable : Bool) :
    (e.onNegotiation side o enable).1.peer = e.peer ∧
      (e.onNegotiation side o enable).2.events.filter Event.ofFrame = [] := by
  simp only [onNegotiation, hearTimingMark, hear]
  repeat' split
  all_goals exact ⟨rfl, rfl⟩

/-- Only a subnegotiation changes what is known of the peer, and only of one is told. -/
theorem perform_of_frame?_eq_none (e : Engine) {t : Token} (ht : t.frame? = none) :
    (e.perform t).1.peer = e.peer ∧ (e.perform t).2.events.filter Event.ofFrame = [] := by
  cases t with
  | data b =>
      simp only [perform, accept]
      repeat' split
      all_goals exact ⟨rfl, rfl⟩
  | command c =>
      simp only [perform, onCommand]
      repeat' split
      all_goals exact ⟨rfl, rfl⟩
  | word side o enable => exact e.onNegotiation_frame side o enable
  | frame kept => cases ht

theorem reflects_perform (e : Engine) (t : Token) :
    Reflects e.peer (e.perform t).1.peer (e.perform t).2.events := by
  cases ht : t.frame? with
  | none =>
      rw [(e.perform_of_frame?_eq_none ht).1]
      exact .refl _ _
  | some kept =>
      match t, kept with
      | .frame [], _ => exact .refl _ _
      | .frame (code :: payload), _ => exact (e.meaning_interpret ⟨code⟩ payload).reflects

theorem told_frame (e : Engine) (limit : Nat) (sent : List UInt8) :
    Told limit [sent]
      ((e.perform (.frame (sent.take (limit + 1)))).2.events.filter Event.ofFrame) := by
  cases sent with
  | nil => exact .empty .nil
  | cons code payload =>
      have hmeaning := e.meaning_interpret ⟨code⟩ (payload.take limit)
      rw [List.take_succ_cons, perform, hmeaning.ofFrame]
      simpa using Told.frame hmeaning .nil

/-- What acting on tokens tells is what it tells of the subnegotiations among them. -/
theorem told_performAll (e : Engine) (ts : List Token)
    (h : ts.filterMap Token.frame? = frames.map (List.take (limit + 1))) :
    Told limit frames ((e.performAll ts).2.events.filter Event.ofFrame) := by
  induction ts generalizing e frames with
  | nil => exact .of_map_eq_nil h
  | cons t ts ih =>
      simp only [performAll, Output.events_append, List.filter_append]
      cases ht : t.frame? with
      | none =>
          rw [List.filterMap_cons_none ht] at h
          rw [(e.perform_of_frame?_eq_none ht).2]
          exact ih (e.perform t).1 h
      | some kept =>
          rw [List.filterMap_cons_some ht] at h
          obtain ⟨sent, frames, rfl, hkept, hrest⟩ := List.map_eq_cons_iff.mp h.symm
          obtain rfl : t = .frame kept := by
            cases t <;> cases ht
            rfl
          subst hkept
          exact (e.told_frame limit sent).append (ih (e.perform _).1 hrest.symm)

theorem told_decode (e : Engine) (bytes : List UInt8)
    (h : (e.reader.tokens bytes).filterMap Token.frame? = frames.map (List.take (limit + 1))) :
    Told limit frames ((e.decode bytes).2.events.filter Event.ofFrame) := by
  induction bytes generalizing e frames with
  | nil => exact .of_map_eq_nil h
  | cons b bytes ih =>
      rw [Reader.tokens, List.filterMap_append, ← e.reader_step] at h
      obtain ⟨frames, frames', rfl, hfirst, hrest⟩ := List.map_eq_append_iff.mp h.symm
      have hstep : Told limit frames ((e.step b).2.events.filter Event.ofFrame) := by
        rw [e.step_eq]
        exact told_performAll _ _ hfirst.symm
      simp only [decode, Output.events_append, List.filter_append]
      exact hstep.append (ih (e.step b).1 hrest.symm)

/-! Any operations. -/

def carryOut (e : Engine) : Operation → Engine × Output
  | .call c => e.call c
  | .hear side o enable => e.onNegotiation side o enable
  | .replaceOptions options => ({ e with options }, {})

/-- Carry out one operation after another. -/
def operate (e : Engine) : List Operation → Engine × Output
  | [] => (e, {})
  | op :: rest =>
      let (e', first) := e.carryOut op
      let (e'', others) := e'.operate rest
      (e'', first ++ others)

/-- An engine has read some bytes as its reader does, and told of the subnegotiations in them
and of nothing else. -/
structure Heard (e : Engine) (bytes : List UInt8) (next : Engine × Output) : Prop where
  reader_eq : next.1.reader = e.reader.after bytes
  reflects : Reflects e.peer next.1.peer next.2.events
  told : ∀ limit frames, (e.reader.tokens bytes).filterMap Token.frame? =
    frames.map (List.take (limit + 1)) → Told limit frames (next.2.events.filter Event.ofFrame)

theorem Heard.trans {e : Engine} {bytes bytes' : List UInt8} {next last : Engine × Output}
    (h : Heard e bytes next) (h' : Heard next.1 bytes' last) :
    Heard e (bytes ++ bytes') (last.1, next.2 ++ last.2) where
  reader_eq := by rw [h'.reader_eq, h.reader_eq, Reader.after_append]
  reflects := h.reflects.trans h'.reflects
  told limit frames hframes := by
    rw [Reader.tokens_append, List.filterMap_append, ← h.reader_eq] at hframes
    obtain ⟨frames, frames', rfl, hfirst, hrest⟩ := List.map_eq_append_iff.mp hframes.symm
    rw [Output.events_append, List.filter_append]
    exact (h.told _ _ hfirst.symm).append (h'.told _ _ hrest.symm)

theorem Heard.of_nothing {e : Engine} {next : Engine × Output}
    (hreader : next.1.reader = e.reader) (hpeer : next.1.peer = e.peer)
    (hevents : next.2.events.filter Event.ofFrame = []) : Heard e [] next where
  reader_eq := hreader
  reflects := hpeer ▸ .refl _ _
  told _ _ hframes := hevents ▸ .of_map_eq_nil hframes

theorem heard_decode (e : Engine) (bytes : List UInt8) : Heard e bytes (e.decode bytes) where
  reader_eq := e.reader_decode bytes
  reflects := by
    apply decode_induction (R := fun e next => Reflects e.peer next.1.peer next.2.events)
    · exact fun e => .refl _ _
    · exact fun e next last => Reflects.trans
    · exact fun e r next => id
    · exact reflects_perform
  told _ _ := e.told_decode bytes

theorem heard_carryOut (e : Engine) (op : Operation) : Heard e op.heard (e.carryOut op) := by
  cases op with
  | call c =>
      cases c with
      | decode bytes => exact e.heard_decode bytes
      | request | permit | encode | urgent | command | timingMark | subnegotiation | resize
      | setTerminalType | setTerminalSpeed => exact .of_nothing rfl rfl rfl
  | hear side o enable =>
      have hreader := e.reader_perform (.word side o enable) fun b hb => nomatch hb
      obtain ⟨hpeer, hevents⟩ := e.onNegotiation_frame side o enable
      exact .of_nothing hreader hpeer hevents
  | replaceOptions options => exact .of_nothing rfl rfl rfl

theorem heard_operate (e : Engine) (ops : List Operation) :
    Heard e (ops.flatMap Operation.heard) (e.operate ops) := by
  induction ops generalizing e with
  | nil => exact .of_nothing rfl rfl rfl
  | cons op ops ih => exact (e.heard_carryOut op).trans (ih (e.carryOut op).1)

/-- Whatever is done with an engine and whatever the peer sends: no more than the limit and one
byte is ever held, and of each subnegotiation no more than the limit is reported, its first
bytes; and a report is of one subnegotiation only, however those before it ended. -/
theorem subnegotiation_limited (settings : Settings) (options : OptionTable)
    (ops : List Operation) :
    let f := ({ settings, options } : Engine).operate ops
    ∃ frames underway,
      (∀ frames' underway', Frames (ops.flatMap Operation.heard) frames' underway' ↔
        frames' = frames ∧ underway' = underway) ∧
      Limited settings.subnegotiationLimit frames underway f.1 f.2.events := by
  intro f
  obtain ⟨frames, underway, hframes⟩ := exists_frames (ops.flatMap Operation.heard)
  obtain ⟨hreceived, htokens⟩ := hframes.kept settings.subnegotiationLimit
  have hheard := heard_operate { settings, options } ops
  have hheld : f.1.received.toList = underway.take (settings.subnegotiationLimit + 1) :=
    (congrArg (·.received.toList) hheard.reader_eq).trans hreceived
  have htold := hheard.told _ _ htokens
  have hvalue : ∀ event ∈ f.2.events, ∀ o text, event.value? = some (o, text) →
      TakenFrom settings.subnegotiationLimit frames o text := fun event hmem o text hevent =>
    htold.value (List.mem_filter.mpr ⟨hmem, Event.ofFrame_of_value? hevent⟩) hevent
  refine ⟨frames, underway, fun frames' underway' => ⟨hframes.unique, ?_⟩, ?_⟩
  · rintro ⟨rfl, rfl⟩
    exact hframes
  · refine ⟨hheld, ?_, htold, fun o payload hmem => ?_, hvalue, fun text htext => ?_,
      fun text htext => ?_⟩
    · rw [← Log.length_toList, hheld]
      exact List.length_take_le _ _
    · exact htold.carried (List.mem_filter.mpr ⟨hmem, rfl⟩)
    · -- nothing is known of the peer at the start
      have hmem := (hheard.reflects.terminalType text htext).resolve_left nofun
      exact hvalue _ hmem _ _ rfl
    · have hmem := (hheard.reflects.terminalSpeed text htext).resolve_left nofun
      exact hvalue _ hmem _ _ rfl

end Engine

end RemoteConsole.Telnet
