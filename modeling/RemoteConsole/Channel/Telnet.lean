/-
Telnet over a channel.  Reads give clean data and writes escape it; whatever the
protocol asks for is answered on the way.
-/
import RemoteConsole.Channel.Basic
import RemoteConsole.Telnet.Engine
import RemoteConsole.Telnet.Error

namespace RemoteConsole.Telnet

/-- The state of a Telnet channel. -/
structure Link where
  engine : Engine := {}
  /-- Bytes for the peer that have not been written. -/
  outbound : List UInt8 := []
  /-- Clean bytes that no read has returned. -/
  pending : List UInt8 := []

/-- Take over an engine's next state and what it sends.  Clean data is not
touched here. -/
def Link.absorb (l : Link) (engine : Engine) (output : Output) : Link :=
  { l with engine, outbound := l.outbound ++ output.sent }

/-- How many bytes are read from the inner channel at once. -/
def Link.chunkSize (l : Link) : Nat :=
  max l.engine.settings.chunkSize 1

/-- What a Telnet channel needs of its setting. -/
structure LinkHold (m : Type → Type u) where
  get : m Link
  set : Link → m Unit
  /-- Hear of the engine's events. -/
  report : List Event → m Unit
  /-- Carry out a call as the only reader, after those that came before. -/
  alone : {α : Type} → m α → m α
  /-- Carry out a call as the only reader, if there is no other. -/
  aloneNow : {α : Type} → m α → m (Option α)
  /-- How far a call is followed that reads on and on: to so many chunks. -/
  chunks : Nat := 1099511627776

section

variable {m : Type → Type u} [Monad m]

/-- A call that stops at an error. -/
abbrev Attempt (m : Type → Type u) := ExceptT Error m

namespace LinkHold

variable (hold : LinkHold m) (inner : Channel m)

/-- Let the engine act, and keep what it sends. -/
def act {α : Type} (f : Engine → Engine × Output × α) : m α := do
  let l ← hold.get
  let (engine, output, result) := f l.engine
  hold.set (l.absorb engine output)
  hold.report output.events
  pure result

/-- Decode bytes: clean data waits to be read. -/
def receive (bytes : List UInt8) : m Unit := do
  let l ← hold.get
  let (engine, output) := l.engine.decode bytes
  hold.set { l.absorb engine output with pending := l.pending ++ output.clean }
  hold.report output.events

/-- Write what waits for the peer.  It is gone even if the write fails. -/
def flush : m (Except Channel.Error Unit) := do
  let l ← hold.get
  if l.outbound = [] then return .ok ()
  hold.set { l with outbound := [] }
  inner.write l.outbound

/-- Take clean bytes, reading chunks until there are some, so many chunks at most.  A call
that is followed no further answers as one whose time is up. -/
def take (count : Nat) : Nat → m (Except Channel.Error (List UInt8))
  | 0 => return .error .timeout
  | chunks + 1 => do
      let l ← hold.get
      if l.pending ≠ [] then
        hold.set { l with pending := l.pending.drop count }
        return .ok (l.pending.take count)
      match ← inner.read l.chunkSize with
      | .error e => return .error e
      | .ok bytes =>
          hold.receive bytes
          match ← hold.flush inner with
          | .error e => return .error e
          | .ok () => take count chunks

/-- Throw away what the inner channel has to read, until it has no more, so many chunks at
most. -/
def discard : Nat → m (Except Channel.Error Unit)
  | 0 => return .ok ()
  | chunks + 1 => do
      let l ← hold.get
      match ← inner.read l.chunkSize with
      | .error .timeout => return .ok ()
      | .error e => return .error e
      | .ok bytes =>
          hold.receive bytes
          hold.set { ← hold.get with pending := [] }
          match ← hold.flush inner with
          | .error e => return .error e
          | .ok () => discard chunks

/-- Fail unless the inner channel is open. -/
def ensureOpen : Attempt m Unit := do
  if !(← inner.isOpen) then throw .notOpen

/-- Let a failure of the inner channel be one of ours. -/
def below {α : Type} (call : m (Except Channel.Error α)) : Attempt m α := do
  match ← (call : m _) with
  | .ok a => return a
  | .error e => throw (.channel e)

/-- Let the engine act and write what it sends. -/
def negotiate {α : Type} (f : Engine → Engine × Output × α) : Attempt m α := do
  ensureOpen inner
  let result ← (hold.act f : m α)
  below (hold.flush inner)
  return result

/-- Wish one side of an option on or off.  The flag tells whether anything
changed. -/
def request (side : Side) (o : OptionCode) (enable : Bool) : Attempt m Bool :=
  hold.negotiate inner (·.request side o enable)

/-- Send a subnegotiation. -/
def sendSubnegotiation (o : OptionCode) (payload : List UInt8) : Attempt m Unit :=
  hold.negotiate inner fun e => (e, { sent := subnegotiation o payload }, ())

/-- Change the window size told to the peer. -/
def setWindowSize (columns rows : UInt16) : Attempt m Unit :=
  hold.negotiate inner fun e =>
    let (e, output) := e.setWindowSize columns rows
    (e, output, ())

/-- Throw away input that has arrived, minding only the protocol in it.  Nothing
is done while another reader is at work. -/
def flushInput : Attempt m Unit := do
  let flushed ← hold.aloneNow do
    hold.set { ← hold.get with pending := [] }
    let timeout ← inner.readTimeout
    inner.setReadTimeout (some .zero)
    let result ← hold.discard inner hold.chunks
    inner.setReadTimeout timeout
    pure result
  match flushed with
  | none => return ()
  | some (.ok ()) => return ()
  | some (.error e) => throw (.channel e)

/-- Send a command on its own.  To synchronize, a timing mark is asked for too,
the peer is urged to read on to a Data Mark, and input is thrown away; after an
Abort Output the peer is not urged. -/
def sendCommand (c : Command) (synchronize : Bool) : Attempt m Unit := do
  ensureOpen inner
  if !c.isStandalone then throw (.notStandalone c)
  let synchronize := synchronize && c.isSynchronizing
  (hold.act fun e =>
    let (e, mark) := if synchronize then e.requestTimingMark else (e, {})
    (e, { sent := Engine.commandBytes c } ++ mark, ()) : m Unit)
  below (hold.flush inner)
  if synchronize then
    if c ≠ .abortOutput then below (inner.sendUrgent [iac] Command.dataMark.code)
    hold.flushInput inner

/-- Telnet over a channel, as a channel. -/
def channel : Channel m where
  read count := do
    if !(← inner.isOpen) then return .error .notOpen
    if count = 0 then return .ok []
    hold.alone (hold.take inner count hold.chunks)
  write bytes := do
    if !(← inner.isOpen) then return .error .notOpen
    inner.write ((← hold.get).engine.encode bytes)
  close := inner.close
  isOpen := inner.isOpen
  readTimeout := inner.readTimeout
  setReadTimeout := inner.setReadTimeout
  sendUrgent := inner.sendUrgent
  setLocalEcho enabled := do
    match ← (hold.request inner .ours .echo (!enabled)).run with
    | .ok _ => return .ok ()
    | .error e => return .error e.asChannel
  peerAddress := inner.peerAddress

end LinkHold

end

end RemoteConsole.Telnet
