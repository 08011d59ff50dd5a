/-
Channels.  A channel is what a session reads from and writes to, whatever lies
behind it; `m` is the setting in which its calls are carried out.
-/
import RemoteConsole.Channel.Address
import RemoteConsole.Channel.Duration
import RemoteConsole.Channel.Error

namespace RemoteConsole

/-- A two-way stream of bytes with a read timeout. -/
structure Channel (m : Type → Type u) where
  /-- Read some bytes, at most as many as given.  Waits for the first. -/
  read : Nat → m (Except Channel.Error (List UInt8))
  /-- Write all of the bytes. -/
  write : List UInt8 → m (Except Channel.Error Unit)
  /-- Close the channel.  Doing so again changes nothing. -/
  close : m (Except Channel.Error Unit)
  isOpen : m Bool
  readTimeout : m (Option Channel.Duration)
  setReadTimeout : Option Channel.Duration → m Unit
  /-- Send bytes and then one byte of urgent data, with nothing between them. -/
  sendUrgent : List UInt8 → UInt8 → m (Except Channel.Error Unit)
  /-- Have the far end show what its user types, or not. -/
  setLocalEcho : Bool → m (Except Channel.Error Unit)
  /-- The address of the far end, if it has one. -/
  peerAddress : m (Option Channel.Address)

namespace Channel

variable {m : Type → Type u} {n : Type → Type v}

/-- Carry out the calls of a channel in another setting. -/
def map (f : {α : Type} → m α → n α) (c : Channel m) : Channel n where
  read count := f (c.read count)
  write bytes := f (c.write bytes)
  close := f c.close
  isOpen := f c.isOpen
  readTimeout := f c.readTimeout
  setReadTimeout timeout := f (c.setReadTimeout timeout)
  sendUrgent lead byte := f (c.sendUrgent lead byte)
  setLocalEcho enabled := f (c.setLocalEcho enabled)
  peerAddress := f c.peerAddress

end Channel

end RemoteConsole
