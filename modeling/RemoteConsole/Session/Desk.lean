/-
One session alone with a scripted transport, with Telnet between them or not.
Nothing waits here, so the whole course of the session is a function of the
script and of what is done to the session.
-/
import RemoteConsole.Channel.Scripted
import RemoteConsole.Channel.Telnet
import RemoteConsole.Session.Run

namespace RemoteConsole.Session

/-- A session, what it is attached to, and what was learnt of it. -/
structure Desk where
  id : Id
  config : Config := {}
  hooks : Hooks := {}
  transport : Channel.Scripted := {}
  /-- The Telnet layer, if there is one. -/
  link : Option Telnet.Link := none
  state : State
  registry : Registry Handler := {}
  metrics : Metrics := []
  notes : Log Note := .empty
  bounds : Bounds := {}

namespace Desk

/-- A session that nothing has happened to. -/
def initial (id : Id) (config : Config) (hooks : Hooks) (link : Option Telnet.Link)
    (registry : Registry Handler) : Desk :=
  { id, config, hooks, link, registry, state := .initial config }

/-- Add a note. -/
def note (n : Note) : StateM Desk Unit :=
  modify fun d => { d with notes := d.notes.add n }

/-- The scripted transport. -/
def wire : Channel (StateM Desk) :=
  Channel.Scripted.channel (return (← get).transport)
    fun transport => modify ({ · with transport })

/-- The setting of the Telnet layer.  There is only one reader at a time. -/
def hold : Telnet.LinkHold (StateM Desk) where
  get := return (← get).link.getD {}
  set link := modify ({ · with link := some link })
  report events := events.forM fun event => note (.telnet event)
  alone call := call
  aloneNow call := some <$> call

/-- What the session reads from and writes to. -/
def channel (telnet : Bool) : Channel (StateM Desk) :=
  if telnet then hold.channel wire else wire

/-- The surroundings of the session of a desk.  It shares its console with no
other session. -/
def host (d : Desk) : Host (StateM Desk) where
  id := d.id
  config := d.config
  hooks := d.hooks
  bounds := d.bounds
  channel := channel d.link.isSome
  state := return (← get).state
  setState state := modify ({ · with state })
  setStage stage := modify fun d => { d with state := { d.state with stage } }
  validate username password := return d.hooks.validates d.config username password
  registry := return (← get).registry
  setRegistry registry := modify ({ · with registry })
  note := note
  count metric := modify fun d => { d with metrics := d.metrics.add metric 1 }
  awaitEnd := pure ()
  sleep _ := pure ()
  broadcast _ := return ⟨0, 0⟩
  collect := return 0
  removeSession i := return .error (.unknownSession i)

/-- What can be done at a desk. -/
inductive Request where
  /-- Type bytes, up to the first that fails. -/
  | type (bytes : List UInt8)
  | submit (line : String)
  | feed (deliveries : List Channel.Delivery)
  | failWrites (count : Nat)
  /-- Take one byte from the transport. -/
  | serve
  | run
  | prompt
  | help
  | sendText (text : String)
  | sendLine (text : String)
  | sendBytes (bytes : List UInt8)
  | setRequireEcho (enabled : Bool)
  | stop
  | close
  | setLocalEcho (enabled : Bool)
  | sendWill (o : Telnet.OptionCode)

/-- What comes of a request. -/
inductive Result where
  | nothing
  | done (result : Except Error Unit)
  /-- Typing failed at the byte with this index. -/
  | failedAt (index : Nat) (e : Error)
  | channel (result : Except Channel.Error Unit)
  | negotiated (result : Except Telnet.Error Bool)

/-- Type bytes, counting from an index, up to the first that fails. -/
def typeFrom (h : Host (StateM Desk)) (index : Nat) : List UInt8 → StateM Desk Result
  | [] => return .done (.ok ())
  | b :: rest => do
      match ← (press h b).run with
      | .ok () => typeFrom h (index + 1) rest
      | .error e => return .failedAt index e

/-- Do something at a desk. -/
def perform (h : Host (StateM Desk)) : Request → StateM Desk Result
  | .type bytes => typeFrom h 0 bytes
  | .submit line => return .done (← (submit h line).run)
  | .feed deliveries => do
      modify fun d => { d with transport := d.transport.feed deliveries }
      return .nothing
  | .failWrites count => do
      modify fun d => { d with transport := { d.transport with failures := count } }
      return .nothing
  | .serve => return .done (← (serveByte h).run)
  | .run => return .done (← (run h h.bounds.bytes).run)
  | .prompt => return .done (← (sendPrompt h).run)
  | .help => return .done (← (sendHelp h).run)
  | .sendText text => return .done (← (Session.sendText h text).run)
  | .sendLine text => return .done (← (Session.sendLine h text).run)
  | .sendBytes bytes => return .done (← (Session.sendBytes h bytes).run)
  | .setRequireEcho enabled => do
      h.update ({ · with requireEcho := enabled })
      return .nothing
  | .stop => do
      stop h
      return .nothing
  | .close => return .channel (← h.channel.close)
  | .setLocalEcho enabled => return .channel (← h.channel.setLocalEcho enabled)
  | .sendWill o => return .negotiated (← (hold.request wire .ours o true).run)

/-- Do something at a desk with a clean record of transport and notes. -/
def step (d : Desk) (request : Request) : Result × Desk :=
  let fresh := { d with notes := .empty, transport := { d.transport with deeds := .empty } }
  (perform d.host request).run fresh

end Desk

end RemoteConsole.Session
