/-
What a server does: it takes connections one by one until it is shut down.
-/
import RemoteConsole.Routine.Exchange
import RemoteConsole.Server.Basic

namespace RemoteConsole.Server

open Network (ChannelId linkHold belowTelnet)

/-- What goes on at a server by itself. -/
inductive Job where
  | console (job : Console.Job)
  /-- Connections are taken. -/
  | accept
deriving DecidableEq, Repr

abbrev Work := Routine Job Server

/-- Work at the console. -/
def atConsole {α : Type} (r : Console.Work α) : Work α :=
  (r.mapJobs .console).within console setConsole

/-- Offer what a console's sessions need: characters one by one, and echo. -/
def greet (c : ChannelId) : Network.Work Console.Job (Except Telnet.Error Unit) :=
  ExceptT.run do
    let _ ← (linkHold c).request (belowTelnet c) .ours .suppressGoAhead true
    let _ ← (linkHold c).request (belowTelnet c) .ours .echo true

/-- Attach a session to a connection.  One that speaks Telnet sends back what is
typed.  Nothing is attached if the greeting cannot be sent. -/
def seatVisitor (settings : Settings) (connection : ChannelId) :
    Console.Work (Option Session.Id) := do
  if !settings.telnet then
    return some (← Routine.modifyGet fun c => c.attach connection)
  let channel ← Routine.modifyGet fun (c : Console) =>
    let (channel, n) := c.network.addTelnet connection { settings := settings.telnetSettings }
    (channel, { c with network := n })
  match ← Console.onNetwork (greet channel) with
  | .error _ => return none
  | .ok () => do
      let i ← Routine.modifyGet fun c => c.attach channel
      Routine.modify fun c =>
        c.setSessionState i { c.sessionState i with requireEcho := true }
      return some i

/-- Start the session of a connection.  Where sessions are served together, one that
cannot be started is removed. -/
def welcome (mode : Mode) (i : Session.Id) : Console.Work Bool := do
  match ← (Session.claim ((← Routine.get).host i)).run with
  | .ok () => do
      Routine.launch (.visit i)
      return true
  | .error _ => do
      if mode = .together then
        let _ ← Console.remove i none
      return false

/-- Take a connection, unless too many sessions are tracked. -/
def receive (connection : ChannelId) : Work Unit := do
  let s ← Routine.get
  let refuse : Work Unit := Routine.modify (·.changeNetwork (·.dropEnd connection))
  if s.settings.maxSessions ≤ s.console.tracked.length then refuse
  else
    match ← atConsole (seatVisitor s.settings connection) with
    | none => refuse
    | some i =>
        if ← atConsole (welcome s.settings.mode i) then
          Routine.modify fun s => { s with visitors := s.visitors ++ [i] }

/-- Take connections until the server is shut down, so many at most. -/
def acceptWithin : Nat → Work Unit
  | 0 => return ()
  | n + 1 => do
      Routine.awaitReady fun s => s.phase ≠ .serving || s.waiting ≠ []
      let next ← Routine.modifyGet fun s =>
        if s.phase ≠ .serving then (none, s)
        else (s.waiting.head?, { s with waiting := s.waiting.tail })
      match next with
      | none => return ()
      | some connection => do
          receive connection
          acceptWithin n

/-- Close the channels of all tracked sessions. -/
def closeAll : Console.Work Unit := do
  for i in (← Routine.get).tracked do
    let _ ← ((← Routine.get).surroundings i false).channel.close

/-- Take connections until the server is shut down.  Sessions that are served
together are closed and seen to their ends then. -/
def accept : Work Unit := do
  acceptWithin (← Routine.get).connections
  Routine.modify refuseWaiting
  if (← Routine.get).settings.mode = .together then
    atConsole closeAll
    Routine.awaitReady visitorsGone
  Routine.modify fun s => { s with accepting := false }

/-- What a job does. -/
def Job.routine : Job → Work Unit
  | console job => atConsole job.routine
  | accept => Server.accept

/-- Start to serve.  This can be done once. -/
def start : Work (Except Session.Error Unit) := do
  let s ← Routine.get
  if s.phase ≠ .bound then return .error (.other "Server already started")
  Routine.modify fun s => { s with phase := .serving, accepting := true }
  if s.settings.mode = .separate then
    if let some period := s.settings.collectPeriod then
      atConsole (Console.startCollector period)
  Routine.launch .accept
  return .ok ()

/-- How long one waits for the last connection to be taken, in milliseconds. -/
def shutdownPatience : Nat := 5000

/-- Stop to serve, and stop all sessions. -/
def shutdown : Work (Except Session.Error Unit) := do
  let s ← Routine.get
  if !s.isRunning then return .error (.other "Server not running")
  Routine.modify fun s => { s with phase := .stopped }
  let now ← Routine.now
  let _ ← Routine.await
    { ready := fun s => !s.accepting
      deadline := some (now + shutdownPatience) }
  atConsole Console.stopAll
  return .ok ()

/-! A server on its own. -/

/-- What comes of what is asked of a server. -/
inductive Reply where
  | done (result : Except Session.Error Unit)
  /-- Whether so many sessions are tracked. -/
  | tracked (reached : Bool)

/-- What can be asked of a server. -/
inductive Request where
  | start
  | shutdown
  /-- Wait until so many sessions are tracked. -/
  | awaitSessions (count : Nat)

def Request.perform : Request → Work Reply
  | start => return .done (← Server.start)
  | shutdown => return .done (← Server.shutdown)
  | awaitSessions count => do
      Routine.awaitReady fun s => s.console.tracked.length = count
      return .tracked true

/-- Ask something of a server, and let everyone go on. -/
def ask (e : Exchange Job Server Reply) (request : Request) :
    Option Reply × Exchange Job Server Reply :=
  let (reply, e) := e.call Job.routine request.perform
  (reply, e.settle Job.routine)

end RemoteConsole.Server
