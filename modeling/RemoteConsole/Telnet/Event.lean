/-
What an engine reports to its owner: everything that happens in the protocol
and never reaches the clean data.
-/
import RemoteConsole.Telnet.Command
import RemoteConsole.Telnet.OptionCode

namespace RemoteConsole.Telnet

inductive Event where
  /-- The peer sent a command. -/
  | command (c : Command)
  /-- One side of an option was switched. -/
  | switched (o : OptionCode) (side : Side) (on : Bool)
  /-- The peer sent a subnegotiation that the engine has no use for. -/
  | subnegotiation (o : OptionCode) (payload : List UInt8)
  /-- The peer named its terminal type. -/
  | terminalType (value : String)
  /-- The peer named its terminal speed. -/
  | terminalSpeed (value : String)
  /-- The peer named its window size. -/
  | windowSize (columns rows : UInt16)
deriving DecidableEq, Repr

end RemoteConsole.Telnet
