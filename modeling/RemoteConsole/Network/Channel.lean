/-
Every channel of a network, as a channel.
-/
import RemoteConsole.Network.Stream

namespace RemoteConsole.Network

variable {J : Type}

/-- A channel that does not exist. -/
def noChannel : Channel (Work J) where
  read _ := return .error .notOpen
  write _ := return .error .notOpen
  close := return .ok ()
  isOpen := return false
  readTimeout := return none
  setReadTimeout _ := return ()
  sendUrgent _ _ := return .error .notOpen
  setLocalEcho _ := return .error .notOpen
  peerAddress := return none

/-- The mark of a pair. -/
def isPairClosed (c : ChannelId) (n : Network) : Bool :=
  match n.nodes[c]? with
  | some (.pair _ _ _ closed) => closed
  | _ => true

def markPairClosed (c : ChannelId) (n : Network) : Network :=
  match n.nodes[c]? with
  | some (.pair reader writer owns _) => n.setNode c (.pair reader writer owns true)
  | _ => n

/-- The setting of a pair: its reads are given up when it is closed. -/
def pairHold (c : ChannelId) : Channel.PairHold (Work J) where
  isClosed := return isPairClosed c (← Routine.get)
  markClosed := Routine.modify (markPairClosed c)
  whileOpen call := call.giveUpWhen (isPairClosed c)

def link (c : ChannelId) (n : Network) : Telnet.Link :=
  match n.nodes[c]? with
  | some (.telnet _ l _) => l
  | _ => {}

def setLink (c : ChannelId) (l : Telnet.Link) (n : Network) : Network :=
  match n.nodes[c]? with
  | some (.telnet below _ reading) => n.setNode c (.telnet below l reading)
  | _ => n

/-- The lock of those who read from a Telnet channel. -/
def linkLock (c : ChannelId) : LockPlace where
  get n :=
    match n.nodes[c]? with
    | some (.telnet _ _ reading) => reading
    | _ => {}
  update f n :=
    match n.nodes[c]? with
    | some (.telnet below l reading) => n.setNode c (.telnet below l (f reading))
    | _ => n

/-- The setting of a Telnet channel: its readers take turns. -/
def linkHold (c : ChannelId) : Telnet.LinkHold (Work J) where
  get := return link c (← Routine.get)
  set l := Routine.modify (setLink c l)
  report events :=
    Routine.modify fun n => { n with events := n.events.addAll (events.map fun e => (c, e)) }
  alone call := (linkLock c).holding call
  aloneNow call := (linkLock c).holdingNow call

def script (c : ChannelId) (n : Network) : Channel.Scripted :=
  match n.nodes[c]? with
  | some (.scripted s) => s
  | _ => { isOpen := false }

def setScript (c : ChannelId) (s : Channel.Scripted) (n : Network) : Network :=
  match n.nodes[c]? with
  | some (.scripted _) => n.setNode c (.scripted s)
  | _ => n

def scriptChannel (c : ChannelId) : Channel (Work J) :=
  Channel.Scripted.channel (return script c (← Routine.get)) fun s => Routine.modify (setScript c s)

/-- The channel with a number, as the nodes lie.  A channel rests on channels
with lower numbers only. -/
def channelAt (nodes : Array Node) (c : ChannelId) : Channel (Work J) :=
  match nodes[c]? with
  | some (.pipe _) => endChannel c
  | some (.scripted _) => scriptChannel c
  | some (.pair reader writer owns _) =>
      if inOrder : reader < c ∧ writer < c then
        have := inOrder.1
        have := inOrder.2
        Channel.pair (pairHold c) owns (channelAt nodes reader) (channelAt nodes writer)
      else noChannel
  | some (.telnet below _ _) =>
      if _inOrder : below < c then (linkHold c).channel (channelAt nodes below) else noChannel
  | none => noChannel
termination_by c

/-- Whether a channel is open, as the nodes lie: nothing below it that it needs is
closed. -/
def isOpenAt (nodes : Array Node) (c : ChannelId) : Bool :=
  match nodes[c]? with
  | some (.pipe e) => !e.closed
  | some (.scripted s) => s.isOpen
  | some (.pair reader writer _ closed) =>
      if inOrder : reader < c ∧ writer < c then
        have := inOrder.1
        have := inOrder.2
        !closed && isOpenAt nodes reader && isOpenAt nodes writer
      else false
  | some (.telnet below _ _) => if _inOrder : below < c then isOpenAt nodes below else false
  | none => false
termination_by c

/-- Whether a channel is open. -/
def isOpen (n : Network) (c : ChannelId) : Bool :=
  isOpenAt n.nodes c

/-- A channel that is looked up at every call. -/
def lookedUp (find : Work J (Channel (Work J))) : Channel (Work J) where
  read count := do (← find).read count
  write bytes := do (← find).write bytes
  close := do (← find).close
  isOpen := do (← find).isOpen
  readTimeout := do (← find).readTimeout
  setReadTimeout timeout := do (← find).setReadTimeout timeout
  sendUrgent lead byte := do (← find).sendUrgent lead byte
  setLocalEcho enabled := do (← find).setLocalEcho enabled
  peerAddress := do (← find).peerAddress

/-- The channel with a number. -/
def channel (c : ChannelId) : Channel (Work J) :=
  lookedUp do return channelAt (← Routine.get).nodes c

/-- The channel that a Telnet channel lies over. -/
def belowTelnet (c : ChannelId) : Channel (Work J) :=
  lookedUp do
    match (← Routine.get).nodes[c]? with
    | some (.telnet below _ _) => return channel below
    | _ => return noChannel

end RemoteConsole.Network
