/-
The calls that can be made on the channels of a network, and what comes of them.
-/
import RemoteConsole.Network.Channel

namespace RemoteConsole.Bench

/-- A call on a channel. -/
inductive Call where
  | read (count : Nat)
  | write (bytes : List UInt8)
  | close
  | isOpen
  | readTimeout
  | setReadTimeout (timeout : Option Channel.Duration)
  | sendUrgent (lead : List UInt8) (byte : UInt8)
  | setLocalEcho (enabled : Bool)
  | peerAddress
  /-- Of a Telnet channel: wish one side of an option on or off. -/
  | request (side : Telnet.Side) (o : Telnet.OptionCode) (enable : Bool)
  /-- Of a Telnet channel: send a command on its own. -/
  | sendCommand (c : Telnet.Command) (synchronize : Bool)
  | sendSubnegotiation (o : Telnet.OptionCode) (payload : List UInt8)
  | setWindowSize (columns rows : UInt16)
  /-- Of a Telnet channel: throw away input that has arrived. -/
  | flushInput
  | setTerminalType (name : String)
  /-- Of a Telnet channel: hear of urgent data. -/
  | onUrgent
  | setWeCan (o : Telnet.OptionCode) (allowed : Bool)
  | setTheyShould (o : Telnet.OptionCode) (allowed : Bool)
  /-- Of a Telnet channel: look at an option. -/
  | option (o : Telnet.OptionCode)
  /-- Of a Telnet channel: look at what the peer has told. -/
  | peer

/-- What comes of a call. -/
inductive Result where
  | nothing
  | flag (b : Bool)
  | read (result : Except Channel.Error (List UInt8))
  /-- How many bytes were written. -/
  | wrote (result : Except Channel.Error Nat)
  | done (result : Except Channel.Error Unit)
  | timeout (timeout : Option Channel.Duration)
  | address (address : Option Channel.Address)
  /-- Whether a request changed anything. -/
  | requested (result : Except Telnet.Error Bool)
  | sent (result : Except Telnet.Error Unit)
  | option (state : Telnet.OptionState)
  /-- What the peer has told, and whether the channel below is open. -/
  | peer (peer : Telnet.Peer) (isOpen : Bool)

section

variable {J : Type}

open Network (ChannelId Work linkHold belowTelnet)

/-- Change the engine of a Telnet channel. -/
def adjust (c : ChannelId) (f : Telnet.Engine → Telnet.Engine) : Work J Result := do
  (linkHold c).act fun e => (f e, {}, ())
  return .nothing

/-- Make a call on a channel. -/
def Call.perform (c : ChannelId) : Call → Work J Result
  | read count => return .read (← (Network.channel c).read count)
  | write bytes => return .wrote ((← (Network.channel c).write bytes).map fun () => bytes.length)
  | close => return .done (← (Network.channel c).close)
  | isOpen => return .flag (← (Network.channel c).isOpen)
  | readTimeout => return .timeout (← (Network.channel c).readTimeout)
  | setReadTimeout timeout => do
      (Network.channel c).setReadTimeout timeout
      return .nothing
  | sendUrgent lead byte => return .done (← (Network.channel c).sendUrgent lead byte)
  | setLocalEcho enabled => return .done (← (Network.channel c).setLocalEcho enabled)
  | peerAddress => return .address (← (Network.channel c).peerAddress)
  | request side o enable =>
      return .requested (← ((linkHold c).request (belowTelnet c) side o enable).run)
  | sendCommand command synchronize =>
      return .sent (← ((linkHold c).sendCommand (belowTelnet c) command synchronize).run)
  | sendSubnegotiation o payload =>
      return .sent (← ((linkHold c).sendSubnegotiation (belowTelnet c) o payload).run)
  | setWindowSize columns rows =>
      return .sent (← ((linkHold c).setWindowSize (belowTelnet c) columns rows).run)
  | flushInput => return .sent (← ((linkHold c).flushInput (belowTelnet c)).run)
  | setTerminalType name =>
      adjust c fun e => { e with settings := { e.settings with terminalType := name } }
  | onUrgent => adjust c (·.onUrgent)
  | setWeCan o allowed => adjust c fun e => { e with options := e.options.setWeCan o allowed }
  | setTheyShould o allowed =>
      adjust c fun e => { e with options := e.options.setTheyShould o allowed }
  | option o => return .option ((Network.link c (← Routine.get)).engine.options.get o)
  | peer => do
      let peer := (Network.link c (← Routine.get)).engine.peer
      return .peer peer (← (belowTelnet c).isOpen)

end

end RemoteConsole.Bench
