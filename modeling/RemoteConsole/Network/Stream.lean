/-
The end of a pipe as a channel.  Reads and writes each go one at a time, in the
order in which they came; closing ends every read and write that waits.
-/
import RemoteConsole.Network.Basic

namespace RemoteConsole.Network

variable {J α : Type}

/-- What routines on a network are. -/
abbrev Work (J : Type) := Routine J Network

/-- A lock somewhere in a network. -/
structure LockPlace where
  get : Network → Lock
  update : (Lock → Lock) → Network → Network

namespace LockPlace

variable (place : LockPlace)

/-- Ask for the lock with a new ticket. -/
def ask : Work J Nat :=
  Routine.modifyGet fun n =>
    (n.tickets, place.update (·.ask n.tickets) { n with tickets := n.tickets + 1 })

def leave (ticket : Nat) (n : Network) : Network :=
  place.update (·.leave ticket) n

/-- Hold the lock, or give up once the network calls for it: the ticket, and
whether the lock is held. -/
def acquireUnless (stop : Network → Bool) : Work J (Nat × Bool) := do
  let ticket ← place.ask
  let _ ← Routine.await
    { ready := fun n => (place.get n).isHeldBy ticket || stop n
      abandon := place.leave ticket }
  return (ticket, (place.get (← Routine.get)).isHeldBy ticket)

/-- Do some work with the lock held, and let go of it whatever comes. -/
def holding (work : Work J α) : Work J α := do
  let (ticket, _) ← place.acquireUnless fun _ => false
  let result ← work.onAbandon (place.leave ticket)
  Routine.modify (place.leave ticket)
  return result

/-- Do some work with the lock held, if it is free. -/
def holdingNow (work : Work J α) : Work J (Option α) := do
  if (place.get (← Routine.get)).isFree then return some (← place.holding work)
  return none

end LockPlace

/-- The lock of those who read from an end. -/
def readLock (c : ChannelId) : LockPlace where
  get n := (n.pipeEnd c).reading
  update f n := n.updateEnd c fun e => { e with reading := f e.reading }

/-- The lock of those who write to an end. -/
def writeLock (c : ChannelId) : LockPlace where
  get n := (n.pipeEnd c).writing
  update f n := n.updateEnd c fun e => { e with writing := f e.writing }

/-- The pipe that an end reads from. -/
def incoming (n : Network) (c : ChannelId) : Pipe :=
  n.pipe (n.pipeEnd c).incoming

/-- The pipe that an end writes to. -/
def outgoing (n : Network) (c : ChannelId) : Pipe :=
  n.pipe (n.pipeEnd c).outgoing

def isClosed (c : ChannelId) (n : Network) : Bool :=
  (n.pipeEnd c).closed

def markClosed (c : ChannelId) (n : Network) : Network :=
  n.updateEnd c ({ · with closed := true })

/-- What a write to a pipe fails with once no one reads from it. -/
def brokenPipe : Channel.Error :=
  .transport "broken pipe"

/-- Wait for bytes as the only reader, and take some.  To find the end of the
stream closes the channel. -/
def takeBytes (c : ChannelId) (count : Nat) (timeout : Option Channel.Duration) :
    Work J (Except Channel.Error (List UInt8)) := do
  let now ← Routine.now
  let ready ← Routine.await
    { ready := fun n => isClosed c n || (n.incoming c).canRead
      deadline := timeout.map fun d => now + d.milliseconds }
  if !ready then return .error .timeout
  Routine.modifyGet fun n =>
    if isClosed c n then (.error .closed, n)
    else
      match (n.incoming c).take count with
      | ([], _) => (.error .closed, markClosed c n)
      | (bytes, p) => (.ok bytes, n.setPipe (n.pipeEnd c).incoming p)

/-- Put all bytes into the pipe, waiting for space, in so many goes at most. -/
def putBytes (c : ChannelId) : Nat → List UInt8 → Work J (Except Channel.Error Unit)
  | 0, _ => return .ok ()
  | goes + 1, bytes => do
      if bytes = [] then return .ok ()
      Routine.awaitReady fun n => isClosed c n || (n.outgoing c).canWrite
      let left : Except Channel.Error (List UInt8) ← Routine.modifyGet fun n =>
        if isClosed c n then (.error .closed, n)
        else if (n.outgoing c).closed then (.error brokenPipe, n)
        else
          let (left, p) := (n.outgoing c).put bytes
          (.ok left, n.setPipe (n.pipeEnd c).outgoing p)
      match left with
      | .error e => return .error e
      | .ok left => putBytes c goes left

/-- Read from an end.  The timeout is the one at the time of the call, and runs
from when the read is the only one. -/
def readEnd (c : ChannelId) (count : Nat) : Work J (Except Channel.Error (List UInt8)) := do
  let n ← Routine.get
  if isClosed c n then return .error .notOpen
  if count = 0 then return .ok []
  let timeout := (n.pipeEnd c).timeout.get
  let (ticket, held) ← (readLock c).acquireUnless (isClosed c)
  let leave := (readLock c).leave ticket
  let result ←
    if held then (takeBytes c count timeout).onAbandon leave
    else pure (.error .closed)
  Routine.modify leave
  return result

/-- Write to an end.  A channel that is closed while another writer is at work
still lets this one wait for its turn. -/
def writeEnd (c : ChannelId) (bytes : List UInt8) : Work J (Except Channel.Error Unit) := do
  if isClosed c (← Routine.get) then return .error .notOpen
  (writeLock c).holding (putBytes c (bytes.length + 1) bytes)

/-- Close an end.  The pipe to the far end is shut unless a writer is at work. -/
def closeEnd (c : ChannelId) : Work J (Except Channel.Error Unit) :=
  Routine.modifyGet fun n =>
    if isClosed c n then (.ok (), n)
    else
      let n := markClosed c n
      if (n.pipeEnd c).writing.isFree then
        (.ok (), n.setPipe (n.pipeEnd c).outgoing (n.outgoing c).close)
      else (.ok (), n)

/-- The end of a pipe, as a channel. -/
def endChannel (c : ChannelId) : Channel (Work J) where
  read := readEnd c
  write := writeEnd c
  close := closeEnd c
  isOpen := return !isClosed c (← Routine.get)
  readTimeout := return ((← Routine.get).pipeEnd c).timeout.get
  setReadTimeout timeout :=
    Routine.modify fun n => n.updateEnd c ({ · with timeout := .ofTimeout timeout })
  sendUrgent lead byte := writeEnd c (lead ++ [byte])
  setLocalEcho _ := return .ok ()
  peerAddress := return ((← Routine.get).pipeEnd c).peerAddress

end RemoteConsole.Network
