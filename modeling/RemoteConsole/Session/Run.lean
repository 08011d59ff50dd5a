/-
A session at work: it reads bytes, edits the line, sees to the login, and carries
out the lines that are commands.
-/
import RemoteConsole.Session.Host

namespace RemoteConsole.Session

variable {m : Type → Type u} [Monad m] (h : Host m)

/-! Writing. -/

/-- Send bytes as they are. -/
def sendBytes (bytes : List UInt8) : Work m Unit :=
  onChannel (h.channel.write bytes)

/-- Send text, every line feed as the configured newline. -/
def sendText (text : String) : Work m Unit :=
  sendBytes h (Text.encode (Text.withNewline h.config.newline text))

def sendLine (text : String) : Work m Unit :=
  sendText h (text ++ "\n")

/-- The prompt of a stage. -/
def promptOf (c : Config) : Stage → String
  | .username => c.usernamePrompt
  | .password => c.passwordPrompt
  | .commandEntry | .processing => c.prompt

def sendPrompt : Work m Unit := do
  sendText h (promptOf h.config (← (h.state : m State)).stage)

def sendHelp : Work m Unit := do
  sendText h ((← (h.registry : m (Registry Handler))).helpScreen h.config)

/-- Tell the far end whether to show what its user types. -/
def adjustEcho : Work m Unit := do
  onChannel (h.channel.setLocalEcho (← (h.state : m State)).wantsLocalEcho)

/-- Close the channel, and wait for the session to end unless this is the
session itself. -/
def stop : m Unit := do
  let _ ← h.channel.close
  h.awaitEnd

/-! Handlers. -/

/-- Ways for a command to have its own session do more. -/
structure Inner (m : Type → Type u) where
  submit : String → Work m Unit
  press : UInt8 → Work m Unit

/-- Send what a command has collected.  It is gone even if it cannot be sent. -/
def flush (a : Arguments) : m (Except Error Unit × Arguments) := do
  if a.output = "" then return (.ok (), a)
  return (← (sendText h a.output).run, { a with output := "" })

/-- Carry out an action of a command. -/
def act (inner : Inner m) (a : Arguments) : (action : Action) → m (action.Reply × Arguments)
  | .look => do
      let s ← h.state
      return (⟨a, s.stage, s.history.toList⟩, a)
  | .write text => return ((), a.write text)
  | .writeError message => return ((), a.writeError h.config message)
  | .writeUsage => return ((), a.writeUsage h.config)
  | .flush => flush h a
  | .shift count => return ((), a.shift count)
  | .prompt => return (← (sendPrompt h).run, a)
  | .help => return (← (sendHelp h).run, a)
  | .sendLine text => return (← (sendLine h text).run, a)
  | .sendBytes bytes => return (← (sendBytes h bytes).run, a)
  | .stop => do
      stop h
      return ((), a)
  | .setRequireEcho enabled => do
      h.update ({ · with requireEcho := enabled })
      return ((), a)
  | .submit line => return (← (inner.submit line).run, a)
  | .typeIn bytes => return (← (bytes.forM inner.press).run, a)
  | .unregister names => do
      let (registry, known) := (← h.registry).remove names
      h.setRegistry registry
      return (known, a)
  | .note n => do
      h.note n
      return ((), a)
  | .sleep time => do
      h.sleep time
      return ((), a)
  | .broadcast text => return (← h.broadcast text, a)
  | .collect => return (← h.collect, a)
  | .removeSession i => return (← h.removeSession i, a)

/-- Run a handler to its end. -/
def perform (inner : Inner m) : Handler → Arguments → m (Outcome × Arguments)
  | .finish outcome, a => return (outcome, a)
  | .perform action next, a => do
      let (reply, a) ← act h inner a action
      perform inner (next reply) a
  | .register names help usage handler next, a => do
      let (registry, done) := (← h.registry).register names ⟨handler, help, usage⟩
      h.setRegistry registry
      perform inner (next done) a

/-! Lines. -/

/-- Carry out a command.  Its error becomes part of its output, and does not end
the session. -/
def runCommand (inner : Inner m) (found : Match Handler) (a : Arguments) : Work m Unit := do
  (h.count .dispatched : m Unit)
  (h.setStage .processing : m Unit)
  let (outcome, a) ←
    (perform h inner found.entry.handler (a.bind found.count found.name found.entry.usage)
      : m (Outcome × Arguments))
  let a ← match outcome with
    | .succeeded => pure a
    | .failed e => do
        (h.count .failed : m Unit)
        pure (a.writeError h.config e.message)
    | .crashed => do
        (h.count .failed : m Unit)
        pure (a.writeError h.config "internal error")
  let (sent, _) ← (flush h a : m (Except Error Unit × Arguments))
  (h.setStage .commandEntry : m Unit)
  ExceptT.mk (pure sent)

/-- Find the command of a line and carry it out. -/
def dispatch (inner : Inner m) (line : String) : Work m Unit := do
  let a := Arguments.ofLine line
  match (← (h.registry : m (Registry Handler))).longest a.tokens with
  | none =>
      (h.count .unknown : m Unit)
      sendLine h h.config.unknownCommandError
  | some found => runCommand h inner found a

/-- Carry out a line whose references to history are replaced.  A command that
was dispatched goes into the history. -/
def carryOut (inner : Inner m) (line : String) : Work m Unit := do
  if h.config.isHelp line then sendHelp h
  else
    dispatch h inner line
    (h.update fun s => { s with history := s.history.add line } : m Unit)

/-- Take a whole line. -/
def submitLine (inner : Inner m) (text : String) : Work m Unit := do
  let line := Text.trim text
  if line = "" then return ()
  if h.config.isExit line then return ← (stop h : m Unit)
  let history := (← (h.state : m State)).history
  match History.resolve h.config history line with
  | .line line => carryOut h inner line
  | .listing => sendText h (History.listing history.toList)
  | .missing => sendLine h h.config.noHistoryError

/-- Decide on a login. -/
def login (username password : String) : Work m Unit := do
  let accepted ← (h.validate username password : m Bool)
  (h.watch (.login h.id username password accepted) : m Unit)
  if accepted then
    (h.count .logins : m Unit)
    (h.update ({ · with username }) : m Unit)
    (h.setStage .commandEntry : m Unit)
  else
    (h.count .loginFailures : m Unit)
    (h.setStage h.config.initialStage : m Unit)
  adjustEcho h

/-- Take a line for what the stage of the session makes of it. -/
def takeLine (inner : Inner m) (line : String) : Work m Unit := do
  let s ← (h.state : m State)
  if s.stage = .password ∨ s.requireEcho = true then sendText h "\n"
  match s.stage with
  | .username =>
      if h.config.password = "" then login h line ""
      else
        (h.update ({ · with username := line }) : m Unit)
        (h.setStage .password : m Unit)
        adjustEcho h
  | .password =>
      let username := (← (h.state : m State)).username
      (h.update ({ · with username := "" }) : m Unit)
      login h username line
  | .commandEntry | .processing => submitLine h inner line
  if ← (h.channel.isOpen : m Bool) then sendPrompt h

/-- Take one byte. -/
def pressKey (inner : Inner m) (b : UInt8) : Work m Unit := do
  let s ← (h.state : m State)
  if isLineEnd b then
    let (s, line) := s.endLine
    (h.setState s : m Unit)
    match line with
    | none => return ()
    | some line => takeLine h inner line
  else
    let (s', echo) := s.edit h.config b
    (h.setState s' : m Unit)
    if s.showsTyping ∧ echo ≠ .none then sendBytes h echo.bytes

/-- The session as its own commands see it, to a given depth. -/
def inner : Nat → Inner m
  | 0 =>
      { submit := fun _ => throw (.other "Commands nested too deeply")
        press := fun _ => throw (.other "Commands nested too deeply") }
  | depth + 1 =>
      { submit := fun line => submitLine h (inner depth) line
        press := fun b => pressKey h (inner depth) b }

/-- The session as its own commands see it. -/
def Host.itself : Inner m :=
  inner h h.bounds.nesting

/-- Submit a line to a session. -/
def submit (line : String) : Work m Unit :=
  submitLine h h.itself line

/-- Type a byte into a session. -/
def press (b : UInt8) : Work m Unit :=
  pressKey h h.itself b

/-! The course of a session. -/

/-- Read a byte and take it.  A read that gives nothing counts as a null. -/
def serveByte : Work m Unit := do
  match ← (h.channel.read 1 : m (Except Channel.Error (List UInt8))) with
  | .error e => throw (.channel e)
  | .ok bytes => press h (bytes.headD 0)

/-- Take bytes until something fails, so many at most. -/
def serveBytes : Nat → Work m Unit
  | 0 => return ()
  | n + 1 => do
      serveByte h
      serveBytes n

/-- Begin with the prompt, and take bytes until something fails, so many at most. -/
def converse (limit : Nat) : Work m Unit := do
  adjustEcho h
  sendPrompt h
  serveBytes h limit

/-- Claim the session for one run: it has to be open and not to have run yet. -/
def claim : Work m Unit := do
  if !(← (h.channel.isOpen : m Bool)) then throw .notOpen
  if (← (h.state : m State)).running then throw (.alreadyRunning h.id)
  (h.update ({ · with running := true }) : m Unit)

/-- Run a claimed session from its start to its end, for so many bytes at most. -/
def live (limit : Nat) : m Unit := do
  h.count .started
  h.watch (.started h.id)
  let _ ← (converse h limit).run
  h.watch (.ended h.id)
  let _ ← h.channel.close
  h.count .stopped
  h.update ({ · with finished := true })

/-- Claim a session and run it. -/
def run (limit : Nat) : Work m Unit := do
  claim h
  (live h limit : m Unit)

end RemoteConsole.Session
