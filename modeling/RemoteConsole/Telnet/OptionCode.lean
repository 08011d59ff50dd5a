/-
Telnet options.  An option is named by its code; each end of a connection has
its own side of every option.
-/
namespace RemoteConsole.Telnet

/-- An option, named by its code. -/
structure OptionCode where
  code : UInt8
deriving DecidableEq, Repr

/-- The two sides of an option: what we perform, and what the peer performs. -/
inductive Side where
  | ours
  | theirs
deriving DecidableEq, Repr

namespace OptionCode

def binary : OptionCode := ⟨0⟩
def echo : OptionCode := ⟨1⟩
def suppressGoAhead : OptionCode := ⟨3⟩
def status : OptionCode := ⟨5⟩
def timingMark : OptionCode := ⟨6⟩
def terminalType : OptionCode := ⟨24⟩
def windowSize : OptionCode := ⟨31⟩
def terminalSpeed : OptionCode := ⟨32⟩

/-- The registered names of the options 0 to 39. -/
def registered : List String :=
  ["TRANSMIT-BINARY", "ECHO", "RECONNECTION", "SUPPRESS-GO-AHEAD",
   "APPROX-MESSAGE-SIZE", "STATUS", "TIMING-MARK", "RCTE", "NAOL", "NAOP", "NAOCRD",
   "NAOHTS", "NAOHTD", "NAOFFD", "NAOVTS", "NAOVTD", "NAOLFD", "EXTEND-ASCII", "LOGOUT",
   "BYTE-MACRO", "DATA-ENTRY-TERMINAL", "SUPDUP", "SUPDUP-OUTPUT", "SEND-LOCATION",
   "TERMINAL-TYPE", "END-OF-RECORD", "TUID", "OUTMRK", "TTYLOC", "3270-REGIME",
   "X.3-PAD", "NAWS", "TERMINAL-SPEED", "TOGGLE-FLOW-CONTROL", "LINEMODE",
   "X-DISPLAY-LOCATION", "OLD-ENVIRON", "AUTHENTICATION", "ENCRYPT", "NEW-ENVIRON"]

/-- The registered name of an option. -/
def name? (o : OptionCode) : Option String :=
  if o.code = 255 then some "EXTENDED-OPTIONS-LIST" else registered[o.code.toNat]?

/-- The name to show for an option, its number if it has none. -/
def name (o : OptionCode) : String :=
  o.name?.getD s!"Option #{o.code}"

end OptionCode

end RemoteConsole.Telnet
