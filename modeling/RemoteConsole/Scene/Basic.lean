/-
A scene: a console with clients at the far ends of its sessions' pipes, and a clock
that moves only while someone waits.  Whatever has been sent to the clients once no
one can go on is received then.
-/
import RemoteConsole.Console.Work
import RemoteConsole.Routine.Exchange

namespace RemoteConsole

/-- Receive all that is on its way to an end of a pipe: the bytes, and whether the
stream is over. -/
def Network.receiveAll (n : Network) (c : Network.ChannelId) :
    (List UInt8 × Bool) × Network :=
  if Network.isClosed c n then (([], true), n)
  else
    let p := n.incoming c
    let (bytes, rest) := p.take p.buffer.size
    let n := n.setPipe (n.pipeEnd c).incoming rest
    if p.closed then ((bytes, true), Network.markClosed c n) else ((bytes, false), n)

namespace Scene

open Network (ChannelId)

/-- What a session is attached to.  Its client has the far end. -/
inductive Attachment where
  | pipe (capacity : Nat) (timeout : Option Channel.Duration)
  | telnet (capacity : Nat) (timeout : Option Channel.Duration) (engine : Telnet.Engine)
  /-- A pipe to read from and a pipe to write to. -/
  | pair (owns : Channel.Ownership)

/-- How many bytes a pipe holds each way if nothing else is said. -/
def standardCapacity : Nat := 65536

/-- A client: the end of a pipe, and whether it has seen the end of the stream. -/
structure Client where
  channel : ChannelId
  ended : Bool := false

/-- What a client received: bytes, and perhaps the end of the stream. -/
structure Receipt where
  bytes : List UInt8
  ended : Bool

/-- What comes of something done at a console. -/
inductive Result where
  | nothing
  | done (result : Except Session.Error Unit)
  | session (i : Session.Id)
  | count (n : Nat)
  | flag (b : Bool)
  | lines (lines : List String)
  | broadcast (result : Console.Broadcast)
  /-- How many bytes a client wrote. -/
  | wrote (result : Except Channel.Error Nat)
  | closed (result : Except Channel.Error Unit)

end Scene

open Scene in
structure Scene where
  exchange : Exchange Console.Job Console Result
  /-- The clients, by name. -/
  clients : List (String × Client) := []
  /-- The console's ends of paired pipes, by name. -/
  halves : List (String × Network.ChannelId) := []
  /-- The sessions that were attached by the console's owner. -/
  attached : List Session.Id := []
  /-- The calls that run a session in the foreground. -/
  foreground : List Nat := []

namespace Scene

open Network (ChannelId)

/-- A console without sessions. -/
def initial (config : Session.Config) (hooks : Session.Hooks)
    (registry : Session.Registry Session.Handler) : Scene :=
  { exchange := .on { config, hooks, registry } }

def console (s : Scene) : Console :=
  s.exchange.state

def change (s : Scene) (f : Console → Console) : Scene :=
  { s with exchange := s.exchange.change f }

def changeNetwork (s : Scene) (f : Network → Network) : Scene :=
  s.change fun c => { c with network := f c.network }

/-- Let a client go. -/
def dropClient (s : Scene) (name : String) : Scene :=
  match s.clients.lookup name with
  | none => s
  | some client =>
      { s.changeNetwork (·.dropEnd client.channel) with
        clients := s.clients.filter fun (other, _) => other ≠ name }

/-- Have a client, in the place of one with the same name. -/
def addClient (s : Scene) (name : String) (channel : ChannelId) : Scene :=
  let s := s.dropClient name
  { s with clients := s.clients ++ [(name, ⟨channel, false⟩)] }

/-- Make a pipe, the far end of which is a client's: the console's end. -/
def addPipe (s : Scene) (client : String) (capacity : Nat)
    (timeout : Option Channel.Duration) : ChannelId × Scene :=
  let (near, far, n) := s.console.network.addPipe capacity timeout none
  (near, (s.changeNetwork fun _ => n).addClient client far)

/-- Keep the console's end of a paired pipe. -/
def keepHalf (s : Scene) (name : String) (channel : ChannelId) : Scene :=
  { s with halves := (name, channel) :: s.halves }

/-- Make a channel on the console's side. -/
def addNode (s : Scene) (node : Network.Node) : ChannelId × Scene :=
  let (c, n) := s.console.network.add node
  (c, s.changeNetwork fun _ => n)

/-- Make what a session is attached to. -/
def addAttachment (s : Scene) (name : String) : Attachment → ChannelId × Scene
  | .pipe capacity timeout => s.addPipe name capacity timeout
  | .telnet capacity timeout engine =>
      let (below, s) := s.addPipe name capacity timeout
      s.addNode (.telnet below { engine } {})
  | .pair owns =>
      let (reader, s) := s.addPipe (name ++ ".in") standardCapacity none
      let (writer, s) := s.addPipe (name ++ ".out") standardCapacity none
      let s := (s.keepHalf (name ++ ".reader") reader).keepHalf (name ++ ".writer") writer
      s.addNode (.pair reader writer owns false)

/-- Attach a session, and say whether what is typed is sent back if this is not to
be as configured. -/
def attach (s : Scene) (name : String) (attachment : Attachment)
    (requireEcho : Option Bool) : Session.Id × Scene :=
  let (channel, s) := s.addAttachment name attachment
  let (i, console) := s.console.attach channel
  let state := console.sessionState i
  let state := { state with requireEcho := requireEcho.getD state.requireEcho }
  (i, { s.change fun _ => console.setSessionState i state with attached := i :: s.attached })

/-! Receiving. -/

/-- Let a client receive what is on its way. -/
def receive (s : Scene) (name : String) (client : Client) : Receipt × Scene :=
  if client.ended then (⟨[], false⟩, s)
  else
    let ((bytes, ended), n) := s.console.network.receiveAll client.channel
    let s := s.changeNetwork fun _ => n
    (⟨bytes, ended⟩,
      { s with
        clients := s.clients.map fun (other, c) =>
          (other, if other = name then { c with ended } else c) })

/-- Let every client receive what is on its way: what they received. -/
def receiveOnce (s : Scene) : List (String × Receipt) × Scene :=
  s.clients.foldl
    (fun (receipts, s) (name, client) =>
      let (receipt, s) := s.receive name client
      (receipts ++ [(name, receipt)], s))
    ([], s)

/-- Let everyone go on until no one can, and then the clients receive: what was
received by each client that received something.  What the clients make room for is
written when the next thing is done. -/
def settle (s : Scene) : List (String × Receipt) × Scene :=
  let s := { s with exchange := s.exchange.settle Console.Job.routine }
  let (receipts, s) := s.receiveOnce
  (receipts.filter fun (_, receipt) => receipt.bytes ≠ [] || receipt.ended, s)

end Scene

end RemoteConsole
