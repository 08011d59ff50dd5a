/-
What a console does with its sessions: start and stop them, write to all of them,
and collect those that are closed.  Each of these may have to wait for sessions
that go on meanwhile.
-/
import RemoteConsole.Console.Basic
import RemoteConsole.Routine.Basic

namespace RemoteConsole.Console

open Session (Id Host Error Tally)

/-- What goes on at a console by itself. -/
inductive Job where
  /-- A session runs to its end. -/
  | session (i : Id)
  /-- A session runs to its end, and is removed then. -/
  | visit (i : Id)
  /-- A collector collects at every period. -/
  | collector (number period : Nat)
deriving DecidableEq, Repr

abbrev Work := Routine Job Console

/-- Work on the network of the console. -/
def onNetwork {α : Type} : Network.Work Job α → Work α :=
  Routine.within network setNetwork

/-- How long one waits for a session to end, in milliseconds. -/
def stopPatience : Nat := 10000

/-- Wait for a session to end, if it was ever started. -/
def awaitEnd (i : Id) : Work Unit := do
  if ((← Routine.get).sessionState i).running then
    let now ← Routine.now
    let _ ← Routine.await
      { ready := fun c => (c.sessionState i).finished
        deadline := some (now + stopPatience) }

/-- The surroundings of a session without the powers of its console.  The flag
tells whether it is the session itself that acts. -/
def surroundings (c : Console) (i : Id) (itself : Bool) : Host Work where
  id := i
  config := c.config
  hooks := c.hooks
  bounds := c.bounds
  channel := (Network.channel (c.seat i).channel).map onNetwork
  state := return (← Routine.get).sessionState i
  setState state := Routine.modify (·.setSessionState i state)
  setStage stage :=
    Routine.modify fun c => c.setSessionState i { c.sessionState i with stage }
  validate username password := return c.hooks.validates c.config username password
  registry := return (← Routine.get).registry
  setRegistry registry := Routine.modify ({ · with registry })
  note n := Routine.modify (·.note n)
  count metric := Routine.modify (·.count metric 1)
  awaitEnd := if itself then return () else awaitEnd i
  sleep time := Routine.sleep time
  broadcast _ := return ⟨0, 0⟩
  collect := return 0
  removeSession i := return .error (.unknownSession i)

/-- Stop a session.  One that stops itself does not wait for its end. -/
def stop (i : Id) (caller : Option Id) : Work Unit := do
  Session.stop ((← Routine.get).surroundings i (caller = some i))

/-- Stop a session, and forget it. -/
def remove (i : Id) (caller : Option Id) : Work (Except Error Unit) := do
  let tracked ← Routine.modifyGet fun c => (c.isTracked i, c.untrack i)
  if !tracked then return .error (.unknownSession i)
  stop i caller
  Routine.modify countActive
  return .ok ()

/-- What came of a message to every session. -/
structure Broadcast where
  total : Nat
  succeeded : Nat
  /-- The sessions that could not be written to, and why. -/
  errors : List (Id × Error)

/-- Write a line to a session. -/
def writeLine (i : Id) (text : String) : Work (Except Error Unit) := do
  (Session.sendLine ((← Routine.get).surroundings i false) text).run

/-- Write a line to every tracked session. -/
def broadcast (text : String) : Work Broadcast := do
  let c ← Routine.get
  let results ← Routine.all (c.tracked.map fun i => do return (i, ← writeLine i text))
  let errors := results.filterMap fun
    | (i, .error e) => some (i, e)
    | (_, .ok ()) => none
  return ⟨results.length, results.length - errors.length, errors⟩

/-- The surroundings of a session at work. -/
def host (c : Console) (i : Id) : Host Work :=
  { c.surroundings i true with
    broadcast := fun text => do
      let result ← broadcast text
      return ⟨result.total, result.succeeded⟩
    collect := Routine.modifyGet collect
    removeSession := fun other => remove other (some i) }

/-- Start a session, tracked or not. -/
def start (i : Id) : Work (Except Error Unit) := do
  match ← (Session.claim ((← Routine.get).host i)).run with
  | .error e => return .error e
  | .ok () => do
      Routine.launch (.session i)
      return .ok ()

/-- Start a tracked session. -/
def startTracked (i : Id) : Work (Except Error Unit) := do
  if (← Routine.get).isTracked i then start i else return .error (.unknownSession i)

/-- Run one session on a channel, alone at the console, to its end. -/
def runForeground (channel : Network.ChannelId) : Work (Except Error Unit) := do
  let tracked := (← Routine.get).tracked.length
  if tracked ≠ 0 then return .error (.notSingle (tracked + 1))
  let i ← Routine.modifyGet fun c => c.attach channel
  let c ← Routine.get
  let result ← (Session.run (c.host i) c.bounds.bytes).run
  Routine.modify fun c => (c.untrack i).countActive
  return result

/-! Collecting. -/

/-- Collect from some time on at every period, as long as the collector is the one
at work, so many times at most. -/
def collectEvery (number period : Nat) : Nat → Nat → Work Unit
  | 0, _ => return ()
  | ticks + 1, due => do
      let replaced ← Routine.await
        { ready := fun c => c.collector ≠ some number
          deadline := some due }
      if replaced then return ()
      let _ ← Routine.modifyGet collect
      collectEvery number period ticks (due + period)

/-- Collect at every period from now on, in the place of any other collector.  A
collector without a period breaks down at once. -/
def startCollector (period : Nat) : Work Unit := do
  let number ← Routine.modifyGet fun c =>
    (c.collectors, { c with collector := some c.collectors, collectors := c.collectors + 1 })
  Routine.launch (.collector number period)

/-- Stop the collector and all tracked sessions, and forget them. -/
def stopAll : Work Unit := do
  Routine.modify fun c => { c with collector := none }
  let _ ← Routine.all ((← Routine.get).tracked.map fun i => remove i none)

/-- What a job does. -/
def Job.routine : Job → Work Unit
  | session i => do
      let c ← Routine.get
      Session.live (c.host i) c.bounds.bytes
  | visit i => do
      let c ← Routine.get
      Session.live (c.host i) c.bounds.bytes
      let _ ← remove i none
  | collector number period => do
      if period = 0 then return ()
      collectEvery number period (← Routine.get).ticks (← Routine.now)

end RemoteConsole.Console
