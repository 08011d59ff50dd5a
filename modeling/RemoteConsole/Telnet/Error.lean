/-
Why an operation on a Telnet channel fails.
-/
import RemoteConsole.Channel.Error
import RemoteConsole.Telnet.Command

namespace RemoteConsole.Telnet

inductive Error where
  /-- The channel below is closed, so nothing can be negotiated. -/
  | notOpen
  /-- The command is part of negotiation or framing and is not sent on its own. -/
  | notStandalone (c : Command)
  /-- The channel below failed. -/
  | channel (e : Channel.Error)
deriving DecidableEq, Repr

namespace Error

def message : Error → String
  | notOpen => "Telnet channel not open"
  | notStandalone c => c.name ++ " is not a standalone command"
  | channel e => "Channel error: " ++ e.message

def isNotOpen : Error → Bool
  | notOpen => true
  | notStandalone _ => false
  | channel e => e.isNotOpen

/-- The same failure, seen as one of a channel. -/
def asChannel : Error → Channel.Error
  | notOpen => .notOpen
  | e@(notStandalone _) => .transport e.message
  | channel e => e

/-- A closed channel is closed in either view. -/
theorem isNotOpen_asChannel (e : Error) : e.asChannel.isNotOpen = e.isNotOpen := by
  cases e <;> rfl

end Error

end RemoteConsole.Telnet
