/-
The surroundings of a session: its channel, its memory, the commands it shares
with others, and those of its console's powers that commands may use.
-/
import RemoteConsole.Channel.Basic
import RemoteConsole.Session.Handler
import RemoteConsole.Session.Help
import RemoteConsole.Session.State

namespace RemoteConsole.Session

/-- Whether sessions are watched, and who may log in then. -/
structure Hooks where
  /-- Whether starts, ends and logins are noted. -/
  watched : Bool := true
  /-- The pairs of user name and password that are accepted; if not given, the
  configured pair is, as it is where sessions are not watched. -/
  accepts : Option (List (String × String)) := none
deriving DecidableEq, Repr

/-- Whether a login is accepted. -/
def Hooks.validates (h : Hooks) (c : Config) (username password : String) : Bool :=
  match h.watched, h.accepts with
  | true, some pairs => pairs.contains (username, password)
  | _, _ => username = c.username && password = c.password

/-- How far work is followed that may go on for ever.  These bounds are not the session's:
what holds of sessions holds whatever they are. -/
structure Bounds where
  /-- How many bytes one run takes. -/
  bytes : Nat := 1099511627776
  /-- How deep commands may have their own session carry out commands. -/
  nesting : Nat := 4096
deriving DecidableEq, Repr

/-- The surroundings of a session. -/
structure Host (m : Type → Type u) where
  id : Id
  config : Config
  hooks : Hooks
  bounds : Bounds
  channel : Channel m
  state : m State
  setState : State → m Unit
  /-- Put the session into a stage, and change nothing else of it. -/
  setStage : Stage → m Unit
  /-- Decide whether a user name and a password are accepted. -/
  validate : String → String → m Bool
  registry : m (Registry Handler)
  setRegistry : Registry Handler → m Unit
  note : Note → m Unit
  count : Metric → m Unit
  /-- Wait for the session to end, if it runs and this is not the session itself. -/
  awaitEnd : m Unit
  sleep : Nat → m Unit
  broadcast : String → m Tally
  collect : m Nat
  removeSession : Id → m (Except Error Unit)

namespace Host

variable {m : Type → Type u} [Monad m] (h : Host m)

def update (f : State → State) : m Unit := do
  h.setState (f (← h.state))

/-- Note what happens to the session, if it is watched. -/
def watch (n : Note) : m Unit := do
  if h.hooks.watched then h.note n

end Host

/-- A part of a session's work, which a failure cuts short. -/
abbrev Work (m : Type → Type u) := ExceptT Error m

/-- Let a failure of the channel be one of the session. -/
def onChannel {m : Type → Type u} [Monad m] (call : m (Except Channel.Error Unit)) :
    Work m Unit :=
  ExceptT.mk do
    match ← call with
    | .ok () => return .ok ()
    | .error e => return .error (.channel e)

end RemoteConsole.Session
