/-
The Telnet engine: one end of a connection as a machine that reads bytes.  Each
step yields the machine's next state and an `Output`: clean data for the owner,
bytes to send to the peer, and events.  The machine holds no queue of its own,
so what it does next never depends on what was done with its output.
-/
import RemoteConsole.Log
import RemoteConsole.Telnet.Escape
import RemoteConsole.Telnet.Event
import RemoteConsole.Telnet.OptionTable
import RemoteConsole.Telnet.Settings
import RemoteConsole.Text.Utf8

namespace RemoteConsole.Telnet

/-- What an engine gives off, each part in order. -/
structure Output where
  clean : List UInt8 := []
  sent : List UInt8 := []
  events : List Event := []
deriving DecidableEq, Repr, Inhabited

namespace Output

/-- One output after another. -/
protected def append (a b : Output) : Output :=
  ⟨a.clean ++ b.clean, a.sent ++ b.sent, a.events ++ b.events⟩

instance : Append Output :=
  ⟨Output.append⟩

@[simp] theorem clean_append (a b : Output) : (a ++ b).clean = a.clean ++ b.clean := rfl

@[simp] theorem sent_append (a b : Output) : (a ++ b).sent = a.sent ++ b.sent := rfl

@[simp] theorem events_append (a b : Output) : (a ++ b).events = a.events ++ b.events := rfl

@[simp] theorem nil_append (a : Output) : ({} : Output) ++ a = a := rfl

@[simp] theorem append_nil (a : Output) : a ++ ({} : Output) = a := by
  cases a
  change Output.mk _ _ _ = _
  simp

theorem append_assoc (a b c : Output) : a ++ b ++ c = a ++ (b ++ c) := by
  change Output.mk _ _ _ = Output.mk _ _ _
  simp [List.append_assoc]

end Output

/-- Where the decoder stands between two bytes. -/
inductive Decoder where
  /-- Between commands. -/
  | idle
  /-- After a carriage return outside binary mode. -/
  | carriageReturn
  /-- After IAC. -/
  | command
  /-- After IAC and a negotiation command, its option still to come. -/
  | negotiating (side : Side) (enable : Bool)
  /-- Within a subnegotiation. -/
  | subnegotiating
  /-- After IAC within a subnegotiation. -/
  | subnegotiatingCommand
deriving DecidableEq, Repr

/-- What the peer has said of itself. -/
structure Peer where
  terminalType : Option String := none
  terminalSpeed : Option String := none
  windowSize : Option (UInt16 × UInt16) := none
deriving DecidableEq, Repr

/-- One end of a Telnet connection. -/
structure Engine where
  settings : Settings := {}
  options : OptionTable := .standard
  decoder : Decoder := .idle
  /-- The subnegotiation under way: its option code, then its payload. -/
  received : Log UInt8 := .empty
  /-- Urgent notifications that no Data Mark has matched yet. -/
  synchronizing : Nat := 0
  peer : Peer := {}
deriving Repr

namespace Engine

/-- The most urgent notifications that are counted. -/
def synchronizingLimit : Nat := 4294967295

def isIdle (e : Engine) : Bool :=
  e.decoder = .idle

/-- Whether the bytes that the peer sends are in binary mode. -/
def readsBinary (e : Engine) : Bool :=
  e.options.isOn .binary .theirs

/-- Whether the bytes that we send are in binary mode. -/
def writesBinary (e : Engine) : Bool :=
  e.options.isOn .binary .ours

/-- Escape data for the peer. -/
def encode (e : Engine) (data : List UInt8) : List UInt8 :=
  escape e.writesBinary data

/-- An urgent notification came: data is dropped until the Data Mark that
belongs to it. -/
def onUrgent (e : Engine) : Engine :=
  { e with synchronizing := min (e.synchronizing + 1) synchronizingLimit }

/-- A byte of data, dropped while a Data Mark is awaited. -/
def deliver (e : Engine) (b : UInt8) : Output :=
  { clean := if e.synchronizing = 0 then [b] else [] }

/-! Negotiation. -/

/-- The command that switches a side of an option: we answer for our own side
and ask for the peer's. -/
def switchCommand : Side → Bool → Command
  | .ours, true => .will
  | .ours, false => .wont
  | .theirs, true => .do
  | .theirs, false => .dont

/-- The bytes that a reaction puts on the wire. -/
def reactionBytes (side : Side) (o : OptionCode) : Reaction → List UInt8
  | .sendEnable => negotiation (switchCommand side true) o
  | .sendDisable => negotiation (switchCommand side false) o
  | .updated => []
  | .ignored => []

/-- Our value of an option that has one, as a subnegotiation. -/
def valueBytes (e : Engine) (o : OptionCode) : List UInt8 :=
  if o = .terminalType then
    subnegotiation o (0 :: Text.encode e.settings.terminalType)
  else if o = .terminalSpeed then
    subnegotiation o (0 :: Text.encode e.settings.speedValue)
  else if o = .windowSize then
    subnegotiation o
      [(e.settings.columns >>> 8).toUInt8, e.settings.columns.toUInt8,
       (e.settings.rows >>> 8).toUInt8, e.settings.rows.toUInt8]
  else []

/-- What is sent of our own accord once a side of an option is on: our value, or
a request for the peer's. -/
def followUp (e : Engine) (o : OptionCode) : Side → List UInt8
  | .ours => e.valueBytes o
  | .theirs =>
      if o = .terminalType ∨ o = .terminalSpeed then subnegotiation o [1] else []

/-- Wish one side of an option on or off.  The flag tells whether anything
changed. -/
def request (e : Engine) (side : Side) (o : OptionCode) (enable : Bool) :
    Engine × Output × Bool :=
  let move := if enable then .requestEnable else .requestDisable
  let (options, reaction) := e.options.step o side move
  ({ e with options }, { sent := reactionBytes side o reaction }, reaction ≠ .ignored)

/-- Word from the peer on a side of an option.  A switch is reported, and what
follows from it is sent after the answer. -/
def hear (e : Engine) (side : Side) (o : OptionCode) (enable : Bool) : Engine × Output :=
  let move := if enable then .receiveEnable else .receiveDisable
  let (options, reaction) := e.options.step o side move
  let e' := { e with options }
  let answer : Output := { sent := reactionBytes side o reaction }
  let on := options.isOn o side
  if on = e.options.isOn o side then (e', answer)
  else
    let report : Output :=
      { events := [.switched o side on], sent := if on then e'.followUp o side else [] }
    (e', answer ++ report)

/-- Word from the peer on the timing mark, which never stays on: a request is
answered every time, an answer ends ours. -/
def hearTimingMark (e : Engine) (side : Side) (enable : Bool) : Engine × Output :=
  match side, enable with
  | .ours, true =>
      let agrees := (e.options.get .timingMark).weCan
      (e, { sent := negotiation (switchCommand .ours agrees) .timingMark })
  | .ours, false => e.hear .ours .timingMark false
  | .theirs, _ =>
      ({ e with options := e.options.reset .timingMark .theirs .off }, {})

/-- The peer sent a negotiation command. -/
def onNegotiation (e : Engine) (side : Side) (o : OptionCode) (enable : Bool) :
    Engine × Output :=
  if o = .timingMark then e.hearTimingMark side enable else e.hear side o enable

/-! Commands. -/

/-- The answer to Are You There. -/
def presence : List UInt8 :=
  Text.encode "[Yes]\r\n"

/-- The peer sent a command other than negotiation. -/
def onCommand (e : Engine) (c : Command) : Engine × Output :=
  if c = .subnegotiationEnd ∨ c.isKnown = false then (e, {})
  else
    let e' := if c = .dataMark then { e with synchronizing := e.synchronizing - 1 } else e
    let sent :=
      if c = .areYouThere ∧ e.settings.answersAreYouThere = true then e.encode presence else []
    (e', { sent, events := [.command c] })

/-- The bytes of a command. -/
def commandBytes (c : Command) : List UInt8 :=
  [iac, c.code]

/-- Ask for a timing mark, whatever is under way. -/
def requestTimingMark (e : Engine) : Engine × Output :=
  ({ e with options := e.options.reset .timingMark .theirs .enabling },
    { sent := negotiation .do .timingMark })

/-- Change the window size, telling the peer if it listens. -/
def setWindowSize (e : Engine) (columns rows : UInt16) : Engine × Output :=
  let e' := { e with settings := { e.settings with columns, rows } }
  (e', { sent := if e.options.isOn .windowSize .ours then e'.valueBytes .windowSize else [] })

/-! Subnegotiation. -/

/-- Keep a byte of a subnegotiation, if there is room: one place for the option
code and as many as the limit for the payload. -/
def keep (e : Engine) (b : UInt8) : Engine :=
  if e.received.length > e.settings.subnegotiationLimit then e
  else { e with received := e.received.add b }

/-- The 16-bit number written high byte first. -/
def word (high low : UInt8) : UInt16 :=
  high.toUInt16 <<< 8 ||| low.toUInt16

/-- Act on a whole subnegotiation. -/
def interpret (e : Engine) (o : OptionCode) (payload : List UInt8) : Engine × Output :=
  if o = .terminalType ∨ o = .terminalSpeed then
    match payload with
    | 1 :: _ => (e, { sent := if e.options.isOn o .ours then e.valueBytes o else [] })
    | 0 :: value =>
        let text := Text.decodeLossy value
        if o = .terminalType then
          ({ e with peer := { e.peer with terminalType := some text } },
            { events := [.terminalType text] })
        else
          ({ e with peer := { e.peer with terminalSpeed := some text } },
            { events := [.terminalSpeed text] })
    | _ => (e, {})
  else if o = .windowSize then
    match payload with
    | c₁ :: c₀ :: r₁ :: r₀ :: _ =>
        ({ e with peer := { e.peer with windowSize := some (word c₁ c₀, word r₁ r₀) } },
          { events := [.windowSize (word c₁ c₀) (word r₁ r₀)] })
    | _ => (e, { events := [.subnegotiation o payload] })
  else (e, { events := [.subnegotiation o payload] })

/-- A subnegotiation has ended; one without an option code says nothing. -/
def endSubnegotiation (e : Engine) : Engine × Output :=
  match e.received.toList with
  | [] => (e, {})
  | code :: payload => { e with received := .empty }.interpret ⟨code⟩ payload

/-! Decoding. -/

/-- Read the byte after IAC. -/
def readCommand (e : Engine) (b : UInt8) : Engine × Output :=
  if b = iac then
    let e' := { e with decoder := .idle }
    (e', e'.deliver iac)
  else if b = Command.do.code then ({ e with decoder := .negotiating .ours true }, {})
  else if b = Command.dont.code then ({ e with decoder := .negotiating .ours false }, {})
  else if b = Command.will.code then ({ e with decoder := .negotiating .theirs true }, {})
  else if b = Command.wont.code then ({ e with decoder := .negotiating .theirs false }, {})
  else if b = Command.subnegotiation.code then
    ({ e with decoder := .subnegotiating, received := .empty }, {})
  else { e with decoder := .idle }.onCommand ⟨b⟩

/-- Read a byte between commands. -/
def readData (e : Engine) (b : UInt8) : Engine × Output :=
  if b = iac then ({ e with decoder := .command }, {})
  else if b = cr ∧ e.readsBinary = false then
    ({ e with decoder := .carriageReturn }, e.deliver b)
  else (e, e.deliver b)

/-- Read one byte.  A subnegotiation that a command cuts short ends there, and
the command is read as any other. -/
def step (e : Engine) (b : UInt8) : Engine × Output :=
  match e.decoder with
  | .idle => e.readData b
  | .carriageReturn =>
      let e' := { e with decoder := .idle }
      if b = nul then (e', {}) else e'.readData b
  | .command => e.readCommand b
  | .negotiating side enable => { e with decoder := .idle }.onNegotiation side ⟨b⟩ enable
  | .subnegotiating =>
      if b = iac then ({ e with decoder := .subnegotiatingCommand }, {}) else (e.keep b, {})
  | .subnegotiatingCommand =>
      if b = iac then ({ e with decoder := .subnegotiating }.keep iac, {})
      else if b = Command.subnegotiationEnd.code then
        { e with decoder := .idle }.endSubnegotiation
      else
        let (e', ended) := e.endSubnegotiation
        let (e'', read) := { e' with decoder := .command }.readCommand b
        (e'', ended ++ read)

/-- Read bytes in order. -/
def decode (e : Engine) : List UInt8 → Engine × Output
  | [] => (e, {})
  | b :: rest =>
      let (e', first) := e.step b
      let (e'', others) := e'.decode rest
      (e'', first ++ others)

/-- How bytes are cut into chunks does not matter. -/
theorem decode_append (e : Engine) (a b : List UInt8) :
    e.decode (a ++ b) =
      (((e.decode a).1.decode b).1, (e.decode a).2 ++ ((e.decode a).1.decode b).2) := by
  induction a generalizing e with
  | nil => simp [decode]
  | cons x a ih => simp [decode, ih, Output.append_assoc]

end Engine

end RemoteConsole.Telnet
