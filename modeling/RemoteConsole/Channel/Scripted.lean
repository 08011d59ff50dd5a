/-
A transport with a script: what it delivers is laid down beforehand, and what is
done to it is written down.  It never waits.
-/
import RemoteConsole.Channel.Basic
import RemoteConsole.Log

namespace RemoteConsole.Channel

/-- What a read finds: some bytes, or an error. -/
abbrev Delivery := Except Error (List UInt8)

/-- What was done to a scripted transport. -/
inductive Deed where
  | wrote (bytes : List UInt8)
  | closed
  | setTimeout (timeout : Option Duration)
  | setEcho (enabled : Bool)
deriving DecidableEq, Repr

structure Scripted where
  /-- What is still to be delivered. -/
  queue : List Delivery := []
  isOpen : Bool := true
  timeout : Option Duration := none
  /-- How many of the next writes fail. -/
  failures : Nat := 0
  /-- What was done. -/
  deeds : Log Deed := .empty

namespace Scripted

/-- The reason given by a write that is to fail. -/
def writeFailure : Error :=
  .transport "write failed"

/-- Read at most `count` bytes of the next delivery; what is left of it comes
first the next time.  An error that ends a stream also closes the transport. -/
def read (s : Scripted) (count : Nat) : Except Error (List UInt8) × Scripted :=
  if s.isOpen = false then (.error .notOpen, s)
  else if count = 0 then (.ok [], s)
  else
    match s.queue with
    | [] => (.error .timeout, s)
    | .error e :: rest => (.error e, { s with queue := rest, isOpen := !e.isTerminal })
    | .ok bytes :: rest =>
        let left := bytes.drop count
        (.ok (bytes.take count), { s with queue := if left = [] then rest else .ok left :: rest })

def record (s : Scripted) (deed : Deed) : Scripted :=
  { s with deeds := s.deeds.add deed }

def write (s : Scripted) (bytes : List UInt8) : Except Error Unit × Scripted :=
  if s.isOpen = false then (.error .notOpen, s)
  else if 0 < s.failures then (.error writeFailure, { s with failures := s.failures - 1 })
  else (.ok (), s.record (.wrote bytes))

def close (s : Scripted) : Scripted :=
  { s.record .closed with isOpen := false }

def setReadTimeout (s : Scripted) (timeout : Option Duration) : Scripted :=
  { s.record (.setTimeout timeout) with timeout }

/-- Add deliveries to the script. -/
def feed (s : Scripted) (deliveries : List Delivery) : Scripted :=
  { s with queue := s.queue ++ deliveries }

/-- A scripted transport as a channel, given access to its state. -/
def channel {m : Type → Type u} [Monad m] (get : m Scripted) (set : Scripted → m Unit) :
    Channel m :=
  let act {α : Type} (f : Scripted → α × Scripted) : m α := do
    let (result, s) := f (← get)
    set s
    pure result
  { read := fun count => act (·.read count)
    write := fun bytes => act (·.write bytes)
    close := act fun s => (.ok (), s.close)
    isOpen := return (← get).isOpen
    readTimeout := return (← get).timeout
    setReadTimeout := fun timeout => act fun s => ((), s.setReadTimeout timeout)
    sendUrgent := fun lead byte => act (·.write (lead ++ [byte]))
    setLocalEcho := fun enabled => act fun s => (.ok (), s.record (.setEcho enabled))
    peerAddress := pure none }

end Scripted

end RemoteConsole.Channel
