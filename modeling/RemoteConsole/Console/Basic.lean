/-
A console: sessions on the channels of a network, which share words, commands and
hooks.  It tracks the sessions that are attached to it until they are removed or
collected; all that ever were stay known by their numbers.
-/
import RemoteConsole.Network.Channel
import RemoteConsole.Session.Run

namespace RemoteConsole

namespace Console

open Session (Id Note Metric Metrics)

/-- A session's place at a console. -/
structure Seat where
  /-- What the session reads from and writes to. -/
  channel : Network.ChannelId
  state : Session.State

end Console

open Console Session in
structure Console where
  config : Config := {}
  hooks : Hooks := {}
  registry : Registry Handler := {}
  network : Network := {}
  /-- The seats of all sessions there ever were, the first of which has number 1. -/
  seats : Array Seat := #[]
  /-- The sessions that are tracked, in increasing order. -/
  tracked : List Id := []
  metrics : Metrics := []
  /-- Notes, oldest first. -/
  notes : Log Note := .empty
  /-- The collector at work, if there is one. -/
  collector : Option Nat := none
  /-- How many collectors were started. -/
  collectors : Nat := 0
  bounds : Session.Bounds := {}
  /-- How far a collector is followed: for so many periods. -/
  ticks : Nat := 1099511627776

namespace Console

open Session (Id Note Metric Metrics)

/-- The index of a session's seat. -/
def seatIndex (i : Id) : Nat :=
  i.number - 1

/-- Whether a session was ever attached. -/
def knows (c : Console) (i : Id) : Bool :=
  0 < i.number && i.number ≤ c.seats.size

def isTracked (c : Console) (i : Id) : Bool :=
  c.tracked.contains i

/-- The seat of a session; for one that never was, a seat at no channel. -/
def seat (c : Console) (i : Id) : Seat :=
  c.seats.getD (seatIndex i) ⟨c.network.nodes.size, .initial c.config⟩

def sessionState (c : Console) (i : Id) : Session.State :=
  (c.seat i).state

def setSessionState (c : Console) (i : Id) (state : Session.State) : Console :=
  { c with seats := c.seats.modify (seatIndex i) ({ · with state }) }

def note (c : Console) (n : Note) : Console :=
  { c with notes := c.notes.add n }

def count (c : Console) (metric : Metric) (amount : Nat) : Console :=
  { c with metrics := c.metrics.add metric amount }

/-- Bring the count of tracked sessions up to date. -/
def countActive (c : Console) : Console :=
  { c with metrics := c.metrics.set .active c.tracked.length }

/-- Take over a network.  The events of its Telnet channels are noted. -/
def setNetwork (n : Network) (c : Console) : Console :=
  { c with
    network := { n with events := .empty }
    notes := c.notes.addAll (n.events.toList.map fun (_, event) => .telnet event) }

/-- Attach a new session to a channel, and track it. -/
def attach (c : Console) (channel : Network.ChannelId) : Id × Console :=
  let i : Id := ⟨c.seats.size + 1⟩
  let seats := c.seats.push ⟨channel, .initial c.config⟩
  (i, { c with seats, tracked := c.tracked ++ [i] }.countActive)

/-- Track a session no longer. -/
def untrack (c : Console) (i : Id) : Console :=
  { c with tracked := c.tracked.filter (· ≠ i) }

/-- Whether the channel of a session is open. -/
def isOpen (c : Console) (i : Id) : Bool :=
  c.network.isOpen (c.seat i).channel

/-- Whether a session is carrying out a command. -/
def isProcessing (c : Console) (i : Id) : Bool :=
  (c.sessionState i).stage = .processing

/-- Forget the sessions that are closed and carry out no command: how many. -/
def collect (c : Console) : Nat × Console :=
  let kept := c.tracked.filter fun i => c.isProcessing i || c.isOpen i
  let gone := c.tracked.length - kept.length
  if gone = 0 then (0, c)
  else (gone, ({ c with tracked := kept }.count .collected gone).countActive)

end Console

end RemoteConsole
