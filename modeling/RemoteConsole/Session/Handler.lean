/-
What commands do.  A handler is a tree: each node is an action on the command's
output, its session or the console, and the branches are what is done for each
reply.  Every course of a handler is finite.
-/
import RemoteConsole.Session.Arguments
import RemoteConsole.Session.Note

namespace RemoteConsole.Session

/-- What a running command can see. -/
structure View where
  arguments : Arguments
  stage : Stage
  history : List String

/-- How many sessions a message reached. -/
structure Tally where
  total : Nat
  succeeded : Nat
deriving DecidableEq, Repr

inductive Action where
  | look
  /-- Collect text. -/
  | write (text : String)
  /-- Collect an error line. -/
  | writeError (message : String)
  /-- Collect the usage line. -/
  | writeUsage
  /-- Send what is collected. -/
  | flush
  /-- Take parameters away. -/
  | shift (count : Nat)
  /-- Send the prompt of the present stage. -/
  | prompt
  /-- Send the help screen. -/
  | help
  /-- Send a line. -/
  | sendLine (text : String)
  | sendBytes (bytes : List UInt8)
  /-- Stop the session. -/
  | stop
  | setRequireEcho (enabled : Bool)
  /-- Have the session carry out another line. -/
  | submit (line : String)
  /-- Have bytes typed into the session. -/
  | typeIn (bytes : List UInt8)
  | unregister (names : String)
  | note (n : Note)
  /-- Wait, in milliseconds. -/
  | sleep (time : Nat)
  /-- Send a line to every session of the console. -/
  | broadcast (text : String)
  /-- Forget the closed sessions of the console. -/
  | collect
  /-- Stop and forget a session of the console. -/
  | removeSession (i : Id)

/-- What a handler is told of an action. -/
def Action.Reply : Action → Type
  | look => View
  | flush | prompt | help | sendLine _ | sendBytes _ => Except Error Unit
  | submit _ | typeIn _ | removeSession _ => Except Error Unit
  | unregister _ => Bool
  | broadcast _ => Tally
  | collect => Nat
  | write _ | writeError _ | writeUsage | shift _ | stop => Unit
  | setRequireEcho _ | note _ | sleep _ => Unit

/-- How a handler ends. -/
inductive Outcome where
  | succeeded
  | failed (e : Error)
  /-- It broke down, and says nothing of the reason. -/
  | crashed
deriving DecidableEq, Repr

inductive Handler where
  | finish (outcome : Outcome)
  | perform (action : Action) (next : action.Reply → Handler)
  /-- Make a new command known; the flag tells whether it was done. -/
  | register (names help usage : String) (handler : Handler) (next : Bool → Handler)

namespace Handler

/-- The handler that does nothing. -/
def idle : Handler :=
  finish .succeeded

/-- Go on if an action worked, and fail as it failed. -/
def onSuccess (next : Handler) : Except Error Unit → Handler
  | .ok () => next
  | .error e => finish (.failed e)

end Handler

end RemoteConsole.Session
