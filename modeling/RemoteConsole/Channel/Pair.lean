/-
A channel that reads from one channel and writes to another.  The pair closes
the halves that it owns and leaves shared ones open.
-/
import RemoteConsole.Channel.Basic

namespace RemoteConsole.Channel

/-- Which halves of a pair are closed with it. -/
structure Ownership where
  reader : Bool
  writer : Bool
deriving DecidableEq, Repr

namespace Ownership

def both : Ownership := ⟨true, true⟩

def neither : Ownership := ⟨false, false⟩

end Ownership

/-- What a pair needs of its setting. -/
structure PairHold (m : Type → Type u) where
  isClosed : m Bool
  /-- Mark the pair closed. -/
  markClosed : m Unit
  /-- Carry out a call, but give it up as soon as the pair is closed. -/
  whileOpen : {α : Type} → m α → m (Option α)

/-- The pair of a channel to read from and a channel to write to. -/
def pair {m : Type → Type u} [Monad m] (hold : PairHold m) (owns : Ownership)
    (reader writer : Channel m) : Channel m where
  read count := do
    if ← hold.isClosed then return .error .notOpen
    match ← hold.whileOpen (reader.read count) with
    | some result => return result
    | none => return .error .closed
  write bytes := do
    if ← hold.isClosed then return .error .notOpen
    writer.write bytes
  close := do
    if ← hold.isClosed then return .ok ()
    hold.markClosed
    if owns.reader then
      if let .error e ← reader.close then return .error e
    if owns.writer then
      if let .error e ← writer.close then return .error e
    return .ok ()
  isOpen := do
    if ← hold.isClosed then return false
    if ← reader.isOpen then writer.isOpen else return false
  readTimeout := reader.readTimeout
  setReadTimeout := reader.setReadTimeout
  sendUrgent lead byte := do
    if ← hold.isClosed then return .error .notOpen
    writer.sendUrgent lead byte
  setLocalEcho := writer.setLocalEcho
  peerAddress := reader.peerAddress

end RemoteConsole.Channel
