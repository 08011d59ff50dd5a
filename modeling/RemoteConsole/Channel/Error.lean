/-
Why a channel refuses or fails.
-/
namespace RemoteConsole.Channel

inductive Error where
  /-- The channel was closed before the call; no later call will do better. -/
  | notOpen
  /-- The stream ended, or the channel was closed during the call. -/
  | closed
  /-- Nothing arrived in time. -/
  | timeout
  /-- The transport failed, for the reason given. -/
  | transport (reason : String)
deriving DecidableEq, Repr

namespace Error

def message : Error → String
  | notOpen => "Channel not open"
  | closed => "Channel closed"
  | timeout => "Read timed out"
  | transport reason => "I/O error: " ++ reason

def isNotOpen (e : Error) : Bool :=
  e = notOpen

def isTimeout (e : Error) : Bool :=
  e = timeout

/-- Whether the stream is over for good. -/
def isTerminal (e : Error) : Bool :=
  e = notOpen || e = closed

end Error

end RemoteConsole.Channel
