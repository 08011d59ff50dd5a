/-
What one end of a Telnet connection says of itself, and its limits.
-/
namespace RemoteConsole.Telnet

/-- The local values and limits of an engine. -/
structure Settings where
  /-- Terminal type told to the peer. -/
  terminalType : String := "UNKNOWN"
  /-- Terminal speed told to the peer, in bits per second. -/
  terminalSpeed : UInt32 := 9600
  /-- Window size told to the peer. -/
  columns : UInt16 := 80
  rows : UInt16 := 24
  /-- Most bytes read from the transport at once, never fewer than one. -/
  chunkSize : Nat := 1024
  /-- Most payload bytes kept of a subnegotiation. -/
  subnegotiationLimit : Nat := 4096
  /-- Whether Are You There is answered. -/
  answersAreYouThere : Bool := true
  /-- Whether negotiations are worth a line in the log. -/
  logsNegotiation : Bool := false
deriving DecidableEq, Repr

namespace Settings

/-- Choose the size of reads; a size of zero counts as one. -/
def withChunkSize (s : Settings) (size : Nat) : Settings :=
  { s with chunkSize := max size 1 }

/-- The terminal speed as it goes on the wire: the speed to send and the speed
to receive. -/
def speedValue (s : Settings) : String :=
  s!"{s.terminalSpeed},{s.terminalSpeed}"

end Settings

end RemoteConsole.Telnet
