/-
A bench: a network of named channels, on which calls are made one after another or
in the background, by a clock that moves only while a call waits.
-/
import RemoteConsole.Bench.Call
import RemoteConsole.Bench.Holdings
import RemoteConsole.Routine.Exchange

namespace RemoteConsole

namespace Bench

open Network (ChannelId)

/-- A channel to make. -/
inductive Blueprint where
  /-- A pipe with a capacity each way.  The near end has the timeout and the
  address. -/
  | pipe (near far : String) (capacity : Nat) (timeout : Option Channel.Duration)
      (peerAddress : Option Channel.Address)
  | pair (name reader writer : String) (owns : Channel.Ownership)
  | telnet (name below : String) (engine : Telnet.Engine)
  | scripted (name : String) (queue : List Channel.Delivery)

end Bench

open Bench Network in
structure Bench where
  exchange : Exchange Empty Holdings Result := .on {}
  /-- The name that each channel was made with. -/
  titles : List (ChannelId × String) := []
  /-- The calls in the background, by label. -/
  pending : List (String × Nat) := []

namespace Bench

open Network (ChannelId)

/-- No jobs are set going on a bench. -/
def launch (job : Empty) : Routine Empty Holdings Unit :=
  nomatch job

def holdings (b : Bench) : Holdings :=
  b.exchange.state

def network (b : Bench) : Network :=
  b.holdings.network

def change (b : Bench) (f : Holdings → Holdings) : Bench :=
  { b with exchange := b.exchange.change f }

def changeNetwork (b : Bench) (f : Network → Network) : Bench :=
  b.change fun h => { h with network := f h.network }

/-- The channel held by a name.  Where there is none, a number of no channel. -/
def find (b : Bench) (name : String) : ChannelId :=
  b.holdings.find name

/-- Hold new channels by names, in the place of what was held by them. -/
def hold (b : Bench) (names : List (String × ChannelId)) : Bench :=
  { b.change (·.hold names) with
    titles := b.titles ++ names.map fun (name, c) => (c, name) }

/-- Add one channel to the network and hold it. -/
def add (b : Bench) (name : String) (node : Network.Node) : Bench :=
  let (c, n) := b.network.add node
  (b.changeNetwork fun _ => n).hold [(name, c)]

/-- Make a channel. -/
def make (b : Bench) : Blueprint → Bench
  | .pipe near far capacity timeout peerAddress =>
      let (a, z, n) := b.network.addPipe capacity timeout peerAddress
      (b.changeNetwork fun _ => n).hold [(near, a), (far, z)]
  | .pair name reader writer owns =>
      b.add name (.pair (b.find reader) (b.find writer) owns false)
  | .telnet name below engine => b.add name (.telnet (b.find below) { engine } {})
  | .scripted name queue => b.add name (.scripted { queue })

/-- Let everyone go on until no one can. -/
def settle (b : Bench) : Bench :=
  { b with exchange := b.exchange.settle launch }

/-- What can be done at a bench. -/
inductive Request where
  | make (blueprint : Blueprint)
  | call (channel : String) (call : Call)
  /-- Make a call in the background. -/
  | start (label : String) (channel : String) (call : Call)
  /-- Wait for a call in the background. -/
  | await (label : String)
  /-- Let a channel go. -/
  | drop (channel : String)
  | feed (channel : String) (queue : List Channel.Delivery)
  | failWrites (channel : String) (count : Nat)
  /-- Move the clock on, in milliseconds. -/
  | pass (time : Nat)

/-- What comes of a request. -/
inductive Reply where
  | nothing
  | result (r : Result)
  /-- The call would have waited for ever. -/
  | blocked
  /-- Whether a call in the background ended at once. -/
  | started (finished : Bool)
  /-- Whether the channel was held. -/
  | dropped (held : Bool)

/-- A reply, the time that passed, and what went on meanwhile. -/
structure Answer where
  reply : Reply
  elapsed : Nat
  /-- What was done to scripted transports. -/
  deeds : List (String × List Channel.Deed)
  /-- What Telnet channels reported. -/
  events : List (String × Telnet.Event)

/-- A reply to a call that may have been given up. -/
def Reply.ofResult : Option Result → Reply
  | some r => .result r
  | none => .blocked

/-- Change a scripted transport. -/
def script (b : Bench) (name : String) (f : Channel.Scripted → Channel.Scripted) : Bench :=
  let c := b.find name
  b.changeNetwork fun n => Network.setScript c (f (Network.script c n)) n

/-- Make a call and wait for its result. -/
def call (b : Bench) (channel : String) (call : Call) : Reply × Bench :=
  let (r, exchange) := b.exchange.call launch (Holdings.work (call.perform (b.find channel)))
  (.ofResult r, { b with exchange })

/-- Wait for a call in the background, which then is forgotten. -/
def await (b : Bench) (label : String) : Reply × Bench :=
  match b.pending.lookup label with
  | none => (.nothing, b)
  | some number =>
      let (r, exchange) := b.exchange.finish launch number
      (.ofResult r,
        { b with exchange, pending := b.pending.filter fun (other, _) => other ≠ label })

/-- Start a call in the background. -/
def start (b : Bench) (label channel : String) (call : Call) : Reply × Bench :=
  let c := b.find channel
  let b := b.change (·.occupy c)
  let (number, exchange) := b.exchange.begin (Holdings.workOccupied c (call.perform c))
  let b := { b with exchange, pending := (label, number) :: b.pending }.settle
  (.started ((Scheduler.state b.exchange).has number), b)

def perform (b : Bench) : Request → Reply × Bench
  | .make blueprint => (.nothing, b.make blueprint)
  | .call channel call => b.call channel call
  | .start label channel call => b.start label channel call
  | .await label => b.await label
  | .drop channel => (.dropped (b.holdings.isNamed channel), b.change (·.drop channel))
  | .feed channel queue => (.nothing, b.script channel (·.feed queue))
  | .failWrites channel count =>
      (.nothing, b.script channel fun s => { s with failures := count })
  | .pass time => (.nothing, { b with exchange := b.exchange.leap launch time })

/-- Forget what was done to transports and what was reported. -/
def forget (n : Network) : Network :=
  { n with
    events := .empty
    nodes := n.nodes.map fun
      | .scripted s => .scripted { s with deeds := .empty }
      | node => node }

/-- What was done to scripted transports, by the name of each. -/
def deeds (b : Bench) : List (String × List Channel.Deed) :=
  b.titles.filterMap fun (c, name) =>
    let deeds := (Network.script c b.network).deeds.toList
    if deeds = [] then none else some (name, deeds)

/-- What Telnet channels reported, by the name of each. -/
def events (b : Bench) : List (String × Telnet.Event) :=
  b.network.events.toList.map fun (c, e) => ((b.titles.lookup c).getD "", e)

/-- Do something at a bench. -/
def step (b : Bench) (request : Request) : Answer × Bench :=
  let began := b.exchange.time
  let (reply, b) := (b.changeNetwork forget).perform request
  let b := b.settle
  ({ reply, elapsed := b.exchange.time - began, deeds := b.deeds, events := b.events }, b)

/-- Whether each channel that is held is open. -/
def openness (b : Bench) : List (String × Bool) :=
  b.holdings.named.map fun (name, c) => (name, b.network.isOpen c)

end Bench

end RemoteConsole
