/-
What can be done at a scene, one thing after another.  After each, everyone goes on
until no one can.
-/
import RemoteConsole.Scene.Basic

namespace RemoteConsole.Scene

open Session (Id)

/-- What can be done at a scene. -/
inductive Request where
  /-- Attach a session, with a client at the far end. -/
  | attach (name : String) (attachment : Attachment) (requireEcho : Option Bool)
  /-- Start a tracked session. -/
  | start (i : Id)
  | remove (i : Id)
  | collect
  /-- Collect at every period, in milliseconds. -/
  | startCollector (period : Nat)
  | stopAll
  | broadcast (text : String)
  /-- Run a session in the foreground on a new pipe. -/
  | foreground (name : String) (timeout : Option Channel.Duration)
  | register (names : String) (entry : Session.Entry Session.Handler)
  | unregister (names : String)
  /-- A client writes. -/
  | send (client : String) (bytes : List UInt8)
  | closeClient (client : String)
  | dropClient (client : String)
  /-- Whether the console's end of a paired pipe is open. -/
  | isHalfOpen (half : String)
  /-- Move the clock on, in milliseconds. -/
  | pass (time : Nat)
  /-- Write a line to a tracked session. -/
  | writeLine (i : Id) (text : String)
  /-- Stop a session that its owner attached, tracked or not. -/
  | stop (i : Id)
  /-- Start a session that its owner attached, tracked or not. -/
  | startKept (i : Id)
  /-- Whether a session that its owner attached has run to its end. -/
  | isFinished (i : Id)
  | history (i : Id)

/-- What comes of a request. -/
inductive Reply where
  | result (r : Result)
  /-- It would have waited for ever. -/
  | blocked
  /-- A session is to run in the foreground. -/
  | started

/-- How a session stands. -/
structure Standing where
  session : Id
  stage : Session.Stage
  isOpen : Bool
  /-- Whether it was ever started. -/
  running : Bool

/-- A reply, the time that passed, and what went on meanwhile. -/
structure Answer where
  reply : Reply
  elapsed : Nat
  received : List (String × Receipt)
  notes : List Session.Note
  /-- The sessions that are tracked afterwards. -/
  sessions : List Standing
  /-- How a session in the foreground ended, if one did. -/
  foreground : Option (Except Session.Error Unit)

/-- A reply to a call that may have been given up. -/
def Reply.ofResult : Option Result → Reply
  | some r => .result r
  | none => .blocked

/-- Make a call and wait for its result. -/
def call (s : Scene) (r : Console.Work Result) : Reply × Scene :=
  let (result, exchange) := s.exchange.call Console.Job.routine r
  (.ofResult result, { s with exchange })

/-- Make a call that never waits. -/
def answer (s : Scene) (result : Result) : Reply × Scene :=
  (.result result, s)

/-- Work on the end of a pipe that a client has. -/
def callClient (s : Scene) (name : String)
    (f : Channel (Network.Work Console.Job) → Network.Work Console.Job Result) :
    Reply × Scene :=
  match s.clients.lookup name with
  | none => s.answer .nothing
  | some client => s.call (Console.onNetwork (f (Network.channel client.channel)))

/-- Work on a session that its owner attached. -/
def callAttached (s : Scene) (i : Id) (r : Console.Work Result) : Reply × Scene :=
  if s.attached.contains i then s.call r else s.answer .nothing

/-- Run a session in the foreground on a new pipe, which the console lets go of at
the end. -/
def startForeground (s : Scene) (name : String) (timeout : Option Channel.Duration) :
    Reply × Scene :=
  let (channel, s) := s.addPipe name standardCapacity timeout
  let (number, exchange) := s.exchange.begin do
    let result ← Console.runForeground channel
    Routine.modify fun c => { c with network := c.network.dropEnd channel }
    return .done result
  (.started, { s with exchange, foreground := s.foreground ++ [number] })

def perform (s : Scene) : Request → Reply × Scene
  | .attach name attachment requireEcho =>
      let (i, s) := s.attach name attachment requireEcho
      s.answer (.session i)
  | .start i => s.call do return .done (← Console.startTracked i)
  | .remove i => s.call do return .done (← Console.remove i none)
  | .collect =>
      let (n, console) := s.console.collect
      (s.change fun _ => console).answer (.count n)
  | .startCollector period => s.call do
      Console.startCollector period
      return .nothing
  | .stopAll => s.call do
      Console.stopAll
      return .nothing
  | .broadcast text => s.call do return .broadcast (← Console.broadcast text)
  | .foreground name timeout => s.startForeground name timeout
  | .register names entry =>
      let (registry, done) := s.console.registry.register names entry
      (s.change fun c => { c with registry }).answer (.flag done)
  | .unregister names =>
      let (registry, known) := s.console.registry.remove names
      (s.change fun c => { c with registry }).answer (.flag known)
  | .send client bytes =>
      s.callClient client fun c => do
        return .wrote ((← c.write bytes).map fun () => bytes.length)
  | .closeClient client => s.callClient client fun c => do return .closed (← c.close)
  | .dropClient client =>
      (s.dropClient client).answer (.flag (s.clients.any fun (other, _) => other = client))
  | .isHalfOpen half =>
      s.answer (match s.halves.lookup half with
        | some c => .flag (s.console.network.isOpen c)
        | none => .nothing)
  | .pass time =>
      ({ s with exchange := s.exchange.leap Console.Job.routine time }).answer .nothing
  | .writeLine i text =>
      if s.console.isTracked i then s.call do return .done (← Console.writeLine i text)
      else s.answer .nothing
  | .stop i => s.callAttached i do
      Console.stop i none
      return .nothing
  | .startKept i => s.callAttached i do return .done (← Console.start i)
  | .isFinished i => s.callAttached i do
      return .flag ((← Routine.get).sessionState i).finished
  | .history i => s.callAttached i do
      return .lines ((← Routine.get).sessionState i).history.toList

/-- Take the results of those foreground sessions that have ended: the last of
them. -/
def takeForeground (s : Scene) : Option (Except Session.Error Unit) × Scene :=
  s.foreground.foldl
    (fun (found, s) number =>
      match (Scheduler.state s.exchange).take number with
      | (some (.done result), tray) =>
          (some result,
            { s with
              exchange := { s.exchange with state := tray }
              foreground := s.foreground.filter (· ≠ number) })
      | _ => (found, s))
    (none, s)

/-- How the tracked sessions stand. -/
def standings (s : Scene) : List Standing :=
  s.console.tracked.map fun i =>
    { session := i
      stage := (s.console.sessionState i).stage
      isOpen := s.console.isOpen i
      running := (s.console.sessionState i).running }

/-- Do something at a scene. -/
def step (s : Scene) (request : Request) : Answer × Scene :=
  let began := s.exchange.time
  let (reply, s) := (s.change ({ · with notes := .empty })).perform request
  let (received, s) := s.settle
  let (foreground, s) := s.takeForeground
  ({ reply, received, foreground
     elapsed := s.exchange.time - began
     notes := s.console.notes.toList
     sessions := s.standings }, s)

end RemoteConsole.Scene
