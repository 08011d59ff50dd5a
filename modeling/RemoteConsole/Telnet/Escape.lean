/-
Data as it goes on the wire.  The byte 255 is doubled, and outside binary mode a
carriage return that no line feed follows is followed by a null.
-/
import RemoteConsole.Telnet.Command
import RemoteConsole.Telnet.OptionCode

namespace RemoteConsole.Telnet

/-- Escape data for the wire.  A carriage return at the end counts as one that no
line feed follows. -/
def escape (binary : Bool) : List UInt8 → List UInt8
  | [] => []
  | b :: rest =>
      if b = iac then iac :: iac :: escape binary rest
      else if b = cr ∧ binary = false ∧ rest.head? ≠ some lf then
        cr :: nul :: escape binary rest
      else b :: escape binary rest

/-- Double every 255, as within a subnegotiation. -/
def doubled (payload : List UInt8) : List UInt8 :=
  payload.flatMap fun b => if b = iac then [iac, iac] else [b]

/-- The three bytes of a negotiation command. -/
def negotiation (c : Command) (o : OptionCode) : List UInt8 :=
  [iac, c.code, o.code]

/-- A whole subnegotiation. -/
def subnegotiation (o : OptionCode) (payload : List UInt8) : List UInt8 :=
  [iac, Command.subnegotiation.code, o.code] ++ doubled payload ++
    [iac, Command.subnegotiationEnd.code]

end RemoteConsole.Telnet
