/-
Commands by script.  A script is a list of steps carried out in order; the first
step that fails ends it.
-/
import RemoteConsole.Session.Handler

namespace RemoteConsole.Session

/-- One step of a scripted command. -/
inductive Step where
  /-- Write the parameters, with spaces between them, as a line. -/
  | echo
  /-- Write text, some number of times. -/
  | text (text : String) (times : Nat)
  /-- Write the stage of the session, and whether it is that of a running
  command, as a line. -/
  | stage
  /-- Write the history, with bars between its lines, as a line. -/
  | history
  | error (message : String)
  | usage
  | flush
  | shift (count : Nat)
  | prompt
  | help
  /-- Send a line at once. -/
  | direct (text : String)
  | bytes (bytes : List UInt8)
  | stop
  | setRequireEcho (enabled : Bool)
  /-- Submit a line. -/
  | submit (line : String)
  /-- Submit the parameters, with spaces between them, as a line. -/
  | submitParameters
  | typeIn (bytes : List UInt8)
  /-- Register a command that tells its name, and write whether it was done. -/
  | register (names : String)
  /-- Remove commands, and write whether any was known. -/
  | unregister (names : String)
  | fail (e : Error)
  | crash
  /-- Note what the command was given. -/
  | noteArguments
  | noteParameter (index : Nat)
  | notePending
  | sleep (time : Nat)
  /-- Send a line to every session, and write how many it reached. -/
  | broadcast (text : String)
  /-- Forget closed sessions, and write how many. -/
  | collect
  /-- Remove a session, and note the result. -/
  | removeSession (i : Id)

namespace Step

/-- A flag as text. -/
def flagText (b : Bool) : String :=
  if b then "true" else "false"

/-- Write a line and go on. -/
def writeLine (text : String) (next : Handler) : Handler :=
  .perform (.write (text ++ "\n")) fun _ => next

/-- The command that a script registers: it tells its name. -/
def tellName : Handler :=
  .perform .look fun view => writeLine ("dynamic " ++ view.arguments.command) .idle

/-- Carry out a step, and then go on. -/
def handler (next : Handler) : Step → Handler
  | echo => .perform .look fun view =>
      writeLine (" ".intercalate view.arguments.tokens) next
  | text t times =>
      .perform (.write (String.join (List.replicate times t))) fun _ => next
  | stage => .perform .look fun view =>
      writeLine (view.stage.name ++ " " ++ flagText (view.stage = .processing)) next
  | history => .perform .look fun view => writeLine ("|".intercalate view.history) next
  | error message => .perform (.writeError message) fun _ => next
  | usage => .perform .writeUsage fun _ => next
  | flush => .perform .flush (Handler.onSuccess next)
  | shift count => .perform (.shift count) fun _ => next
  | prompt => .perform .prompt (Handler.onSuccess next)
  | help => .perform .help (Handler.onSuccess next)
  | direct t => .perform (.sendLine t) (Handler.onSuccess next)
  | bytes b => .perform (.sendBytes b) (Handler.onSuccess next)
  | stop => .perform .stop fun _ => next
  | setRequireEcho enabled => .perform (.setRequireEcho enabled) fun _ => next
  | submit line => .perform (.submit line) (Handler.onSuccess next)
  | submitParameters => .perform .look fun view =>
      .perform (.submit (" ".intercalate view.arguments.tokens)) (Handler.onSuccess next)
  | typeIn b => .perform (.typeIn b) (Handler.onSuccess next)
  | register names =>
      .register names "dynamic" "" tellName fun done => writeLine (flagText done) next
  | unregister names =>
      .perform (.unregister names) fun (known : Bool) => writeLine (flagText known) next
  | fail e => .finish (.failed e)
  | crash => .finish .crashed
  | noteArguments => .perform .look fun view =>
      let a := view.arguments
      .perform (.note (.arguments a.command a.usage a.line a.tokens)) fun _ => next
  | noteParameter index => .perform .look fun view =>
      .perform (.note (.parameter view.arguments.tokens[index]?)) fun _ => next
  | notePending => .perform .look fun view =>
      .perform (.note (.pending view.arguments.output)) fun _ => next
  | sleep time => .perform (.sleep time) fun _ => next
  | broadcast t => .perform (.broadcast t) fun (tally : Tally) =>
      writeLine s!"{tally.succeeded}/{tally.total}" next
  | collect => .perform .collect fun (count : Nat) => writeLine s!"{count}" next
  | removeSession i => .perform (.removeSession i) fun (result : Except Error Unit) =>
      .perform (.note (.removal result)) fun _ => next

end Step

/-- The handler that carries out a script. -/
def Handler.ofScript (script : List Step) : Handler :=
  script.foldr (fun step next => step.handler next) .idle

end RemoteConsole.Session
