/-
What a console's owner learns of its sessions: notes, taken in the order in which
things happen, and counts.
-/
import RemoteConsole.Session.Error
import RemoteConsole.Telnet.Event

namespace RemoteConsole.Session

/-- Something worth noting. -/
inductive Note where
  | started (i : Id)
  | ended (i : Id)
  /-- Someone tried to log in. -/
  | login (i : Id) (username password : String) (accepted : Bool)
  /-- A command showed what it was given. -/
  | arguments (command usage line : String) (tokens : List String)
  /-- A command showed one of its parameters. -/
  | parameter (value : Option String)
  /-- A command showed its unsent output. -/
  | pending (output : String)
  /-- A command had a session removed. -/
  | removal (result : Except Error Unit)
  /-- The Telnet layer of a session reported an event. -/
  | telnet (event : Telnet.Event)

/-- The session that a note is about, if it names one. -/
def Note.session? : Note → Option Id
  | started i | ended i => some i
  | login i _ _ _ => some i
  | _ => none

/-- What is counted. -/
inductive Metric where
  | dispatched
  | unknown
  | failed
  | logins
  | loginFailures
  | started
  | stopped
  | collected
  | active
deriving DecidableEq, Repr

def Metric.name : Metric → String
  | dispatched => "telecli.commands.dispatched"
  | unknown => "telecli.commands.unknown"
  | failed => "telecli.commands.failed"
  | logins => "telecli.contexts.logins"
  | loginFailures => "telecli.contexts.login_failures"
  | started => "telecli.contexts.started"
  | stopped => "telecli.contexts.stopped"
  | collected => "telecli.contexts.collected"
  | active => "telecli.contexts.active"

/-- The counts that have been touched, in the order of their first touch. -/
abbrev Metrics := List (Metric × Nat)

namespace Metrics

def value (m : Metrics) (metric : Metric) : Nat :=
  (m.lookup metric).getD 0

/-- Give a count a value. -/
def set (m : Metrics) (metric : Metric) (value : Nat) : Metrics :=
  if m.any fun (other, _) => other = metric then
    m.map fun (other, old) => (other, if other = metric then value else old)
  else m ++ [(metric, value)]

/-- Raise a count. -/
def add (m : Metrics) (metric : Metric) (amount : Nat) : Metrics :=
  m.set metric (m.value metric + amount)

end Metrics

end RemoteConsole.Session
