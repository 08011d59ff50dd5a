/-
Calls on a channel as data, one of them or one after another.
-/
import RemoteConsole.Channel.Basic

namespace RemoteConsole.Channel

/-- A call on a channel that asks something of it. -/
inductive Call where
  | read (count : Nat)
  | write (bytes : List UInt8)
  | close
  | setReadTimeout (timeout : Option Duration)
  | sendUrgent (lead : List UInt8) (byte : UInt8)
  | setLocalEcho (enabled : Bool)
deriving DecidableEq, Repr

/-- The message that a call writes, if it writes one. -/
def Call.message? : Call → Option (List UInt8)
  | write bytes => some bytes
  | sendUrgent lead byte => some (lead ++ [byte])
  | read _ | close | setReadTimeout _ | setLocalEcho _ => none

section

variable {m : Type → Type u} [Monad m]

/-- Make a call: the bytes that it returns, which are none but for a read. -/
def perform (c : Channel m) : Call → m (Except Error (List UInt8))
  | .read count => c.read count
  | .write bytes => return (← c.write bytes).map fun () => []
  | .close => return (← c.close).map fun () => []
  | .setReadTimeout timeout => do
      c.setReadTimeout timeout
      return .ok []
  | .sendUrgent lead byte => return (← c.sendUrgent lead byte).map fun () => []
  | .setLocalEcho enabled => return (← c.setLocalEcho enabled).map fun () => []

/-- Make calls one after another. -/
def performAll (c : Channel m) : List Call → m (List (Except Error (List UInt8)))
  | [] => return []
  | call :: calls => do
      let first ← c.perform call
      return first :: (← c.performAll calls)

end

end RemoteConsole.Channel
