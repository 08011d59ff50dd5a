/-
Why a session, or the console that keeps it, fails.
-/
import RemoteConsole.Telnet.Error

namespace RemoteConsole.Session

/-- The number of a session.  Numbers grow and are never given twice. -/
structure Id where
  number : Nat
deriving DecidableEq, Repr

/-- How a session is named in messages. -/
def Id.name (i : Id) : String :=
  s!"ctx-{i.number}"

inductive Error where
  /-- The system failed, for the reason given. -/
  | system (reason : String)
  /-- The channel of the session failed. -/
  | channel (e : Channel.Error)
  /-- The Telnet layer of the session failed. -/
  | telnet (e : Telnet.Error)
  /-- Text could not be formatted. -/
  | format
  /-- No such session is tracked. -/
  | unknownSession (i : Id)
  /-- The session runs already. -/
  | alreadyRunning (i : Id)
  /-- The foreground holds one session, and this many would be tracked. -/
  | notSingle (count : Nat)
  /-- The channel of the session is closed. -/
  | notOpen
  /-- Any other failure, in words. -/
  | other (text : String)
deriving DecidableEq, Repr

namespace Error

def message : Error → String
  | system reason => "I/O error: " ++ reason
  | channel e => "Channel error: " ++ e.message
  | telnet e => "Telnet error: " ++ e.message
  | format => "Format error"
  | unknownSession i => "Context " ++ i.name ++ " not found"
  | alreadyRunning i => "Context " ++ i.name ++ " already running"
  | notSingle count => s!"Foreground mode requires a single context, {count} tracked"
  | notOpen => "Context not open"
  | other text => text

def isNotOpen : Error → Bool
  | notOpen => true
  | channel e => e.isNotOpen
  | telnet e => e.isNotOpen
  | _ => false

/-- Whether the error ends a session. -/
def isTerminal : Error → Bool
  | notOpen => true
  | channel e => e.isTerminal
  | telnet (.channel e) => e.isTerminal
  | telnet e => e.isNotOpen
  | _ => false

def isTimeout : Error → Bool
  | channel e => e.isTimeout
  | telnet (.channel e) => e.isTimeout
  | _ => false

/-- What is not open has ended. -/
theorem isTerminal_of_isNotOpen {e : Error} (h : e.isNotOpen = true) :
    e.isTerminal = true := by
  cases e with
  | channel e => cases e <;> simp_all [isNotOpen, isTerminal, Channel.Error.isNotOpen,
      Channel.Error.isTerminal]
  | telnet e =>
      cases e with
      | channel e => cases e <;> simp_all [isNotOpen, isTerminal, Telnet.Error.isNotOpen,
          Channel.Error.isNotOpen, Channel.Error.isTerminal]
      | _ => simp_all [isNotOpen, isTerminal]
  | _ => simp_all [isNotOpen, isTerminal]

end Error

end RemoteConsole.Session
