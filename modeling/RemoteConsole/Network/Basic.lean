/-
A network of channels: ends of pipes, pairs of channels, Telnet over channels and
scripted transports, each known by its number.  Channels may share what lies
below them, but rest only on channels with lower numbers.
-/
import RemoteConsole.Channel.Pair
import RemoteConsole.Channel.Scripted
import RemoteConsole.Channel.Telnet
import RemoteConsole.Network.Lock
import RemoteConsole.Network.Pipe
import RemoteConsole.Routine.Basic

namespace RemoteConsole

namespace Network

/-- The number of a channel. -/
abbrev ChannelId := Nat

/-- One end of a pipe.  Reading and writing are locked apart from each other. -/
structure End where
  /-- The pipe read from, and the pipe written to. -/
  incoming : Nat
  outgoing : Nat
  reading : Lock := {}
  writing : Lock := {}
  closed : Bool := false
  timeout : Channel.TimeoutCell := .ofTimeout none
  peerAddress : Option Channel.Address := none
deriving DecidableEq, Repr

/-- A channel. -/
inductive Node where
  | pipe (e : End)
  | pair (reader writer : ChannelId) (owns : Channel.Ownership) (closed : Bool)
  | telnet (below : ChannelId) (link : Telnet.Link) (reading : Lock)
  | scripted (s : Channel.Scripted)

/-- The channels that a channel rests on. -/
def Node.below : Node → List ChannelId
  | .pair reader writer _ _ => [reader, writer]
  | .telnet below _ _ => [below]
  | .pipe _ | .scripted _ => []

end Network

open Network in
structure Network where
  pipes : Array Pipe := #[]
  nodes : Array Node := #[]
  /-- Events of Telnet channels that no one has heard of yet. -/
  events : Log (ChannelId × Telnet.Event) := .empty
  /-- How many lock tickets have been given. -/
  tickets : Nat := 0

namespace Network

/-- A pipe that does not exist: nothing goes through it. -/
def noPipe : Pipe :=
  { capacity := 0, closed := true }

def pipe (n : Network) (i : Nat) : Pipe :=
  n.pipes.getD i noPipe

def setPipe (n : Network) (i : Nat) (p : Pipe) : Network :=
  { n with pipes := n.pipes.setIfInBounds i p }

/-- An end that does not exist. -/
def noEnd : End :=
  { incoming := 0, outgoing := 0, closed := true }

/-- The end of a pipe that a channel is. -/
def pipeEnd (n : Network) (c : ChannelId) : End :=
  match n.nodes[c]? with
  | some (.pipe e) => e
  | _ => noEnd

def setNode (n : Network) (c : ChannelId) (node : Node) : Network :=
  { n with nodes := n.nodes.setIfInBounds c node }

def updateEnd (n : Network) (c : ChannelId) (f : End → End) : Network :=
  match n.nodes[c]? with
  | some (.pipe e) => n.setNode c (.pipe (f e))
  | _ => n

/-- Add a channel. -/
def add (n : Network) (node : Node) : ChannelId × Network :=
  (n.nodes.size, { n with nodes := n.nodes.push node })

/-- Add a pipe with a capacity each way: the two ends, of which the first has the
timeout and the address. -/
def addPipe (n : Network) (capacity : Nat) (timeout : Option Channel.Duration)
    (peerAddress : Option Channel.Address) : ChannelId × ChannelId × Network :=
  let i := n.pipes.size
  let n := { n with pipes := (n.pipes.push { capacity }).push { capacity } }
  let near : End :=
    { incoming := i, outgoing := i + 1, timeout := .ofTimeout timeout, peerAddress }
  let (a, n) := n.add (.pipe near)
  let (b, n) := n.add (.pipe { incoming := i + 1, outgoing := i })
  (a, b, n)

/-- Add Telnet over a channel. -/
def addTelnet (n : Network) (below : ChannelId) (engine : Telnet.Engine) :
    ChannelId × Network :=
  n.add (.telnet below { engine } {})

/-- Let go of an end of a pipe: the other end reads what is on its way and then
the end, and its writes fail. -/
def dropEnd (n : Network) (c : ChannelId) : Network :=
  match n.nodes[c]? with
  | some (.pipe e) =>
      let n := n.setPipe e.outgoing (n.pipe e.outgoing).close
      n.setPipe e.incoming (n.pipe e.incoming).close
  | _ => n

/-- The channels that some channels rest on, themselves included. -/
def reachable (n : Network) (held : List ChannelId) : List ChannelId :=
  (List.range n.nodes.size).reverse.foldl
    (fun seen c =>
      if seen.contains c then
        match n.nodes[c]? with
        | some node => seen ++ node.below
        | none => seen
      else seen)
    held

/-- Let go of every end of a pipe that none of the held channels rests on. -/
def release (n : Network) (held : List ChannelId) : Network :=
  let kept := n.reachable held
  (List.range n.nodes.size).foldl
    (fun n c => if kept.contains c then n else n.dropEnd c) n

end Network

end RemoteConsole
