/-
Telnet commands.  A command is the byte that follows IAC on the wire; some
bytes frame negotiation or subnegotiation, some stand alone, some mean nothing.
-/
namespace RemoteConsole.Telnet

/-- Interpret As Command, the byte that begins every command. -/
def iac : UInt8 := 255

/-- Carriage return, line feed and null, the bytes that line ends are made of. -/
def cr : UInt8 := 13
@[inherit_doc cr] def lf : UInt8 := 10
@[inherit_doc cr] def nul : UInt8 := 0

/-- A command, named by its byte. -/
structure Command where
  code : UInt8
deriving DecidableEq, Repr

namespace Command

def endOfFile : Command := ⟨236⟩
def suspend : Command := ⟨237⟩
def abort : Command := ⟨238⟩
def endOfRecord : Command := ⟨239⟩
def subnegotiationEnd : Command := ⟨240⟩
def noOperation : Command := ⟨241⟩
def dataMark : Command := ⟨242⟩
def breakSignal : Command := ⟨243⟩
def interrupt : Command := ⟨244⟩
def abortOutput : Command := ⟨245⟩
def areYouThere : Command := ⟨246⟩
def eraseCharacter : Command := ⟨247⟩
def eraseLine : Command := ⟨248⟩
def goAhead : Command := ⟨249⟩
def subnegotiation : Command := ⟨250⟩
def will : Command := ⟨251⟩
def wont : Command := ⟨252⟩
def «do» : Command := ⟨253⟩
def dont : Command := ⟨254⟩
def interpretAsCommand : Command := ⟨iac⟩

/-- The registered name of a command. -/
def name? (c : Command) : Option String :=
  match c.code with
  | 236 => "EOF"
  | 237 => "SUSP"
  | 238 => "ABORT"
  | 239 => "EOR"
  | 240 => "SE"
  | 241 => "NOP"
  | 242 => "DM"
  | 243 => "BRK"
  | 244 => "IP"
  | 245 => "AO"
  | 246 => "AYT"
  | 247 => "EC"
  | 248 => "EL"
  | 249 => "GA"
  | 250 => "SB"
  | 251 => "WILL"
  | 252 => "WONT"
  | 253 => "DO"
  | 254 => "DONT"
  | 255 => "IAC"
  | _ => none

/-- The name to show for a command, its number if it has none. -/
def name (c : Command) : String :=
  c.name?.getD s!"Command #{c.code}"

/-- Whether the byte is a command at all. -/
def isKnown (c : Command) : Bool :=
  236 ≤ c.code

/-- Commands that may be followed by the Synch procedure. -/
def isSynchronizing (c : Command) : Bool :=
  c = interrupt || c = breakSignal || c = abort || c = suspend || c = abortOutput

/-- Commands that may be sent on their own: neither negotiation nor framing. -/
def isStandalone (c : Command) : Bool :=
  (236 ≤ c.code && c.code < 240) || (240 < c.code && c.code < 250)

end Command

end RemoteConsole.Telnet
