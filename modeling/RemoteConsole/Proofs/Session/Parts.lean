/-
What a session does, taken apart: how a line is heeded and answered, what a byte does to
the memory before it is answered, and a command between its two changes of stage.
-/
import Mathlib.Tactic.Common
import RemoteConsole.Session.Run

namespace RemoteConsole.Session

variable {m : Type → Type u}

/-- Surroundings whose calls are carried out in another setting. -/
def Host.map {n : Type → Type v} (f : {α : Type} → m α → n α) (h : Host m) : Host n where
  id := h.id
  config := h.config
  hooks := h.hooks
  bounds := h.bounds
  channel := h.channel.map f
  state := f h.state
  setState state := f (h.setState state)
  setStage stage := f (h.setStage stage)
  validate username password := f (h.validate username password)
  registry := f h.registry
  setRegistry registry := f (h.setRegistry registry)
  note n := f (h.note n)
  count metric := f (h.count metric)
  awaitEnd := f h.awaitEnd
  sleep time := f (h.sleep time)
  broadcast text := f (h.broadcast text)
  collect := f h.collect
  removeSession i := f (h.removeSession i)

variable [Monad m]

/-- Look at the memory of a session and change it at one stroke. -/
def Host.change {α : Type} (h : Host m) (f : State → α × State) : m α := do
  let s ← h.state
  h.setState (f s).2
  return (f s).1

theorem Host.update_eq_change [LawfulMonad m] (h : Host m) (f : State → State) :
    h.update f = h.change fun s => ((), f s) := by
  simp [Host.update, Host.change]

/-! The parts of taking a line and of taking a byte. -/

/-- What follows the verdict on a login. -/
def settle (h : Host m) (username password : String)
    (accepted : Bool) : Work m Unit := do
  (h.watch (.login h.id username password accepted) : m Unit)
  if accepted then
    (h.count .logins : m Unit)
    (h.update ({ · with username }) : m Unit)
    (h.setStage .commandEntry : m Unit)
  else
    (h.count .loginFailures : m Unit)
    (h.setStage h.config.initialStage : m Unit)
  adjustEcho h

theorem login_eq (h : Host m) (username password : String) :
    login h username password = (do
      let accepted ← (h.validate username password : m Bool)
      settle h username password accepted) := rfl

/-- Take a line for what a stage makes of it. -/
def heed (h : Host m) (i : Inner m) (stage : Stage) (line : String) : Work m Unit :=
  match stage with
  | .username =>
      if h.config.password = "" then login h line ""
      else do
        (h.update ({ · with username := line }) : m Unit)
        (h.setStage .password : m Unit)
        adjustEcho h
  | .password => do
      let username := (← (h.state : m State)).username
      (h.update ({ · with username := "" }) : m Unit)
      login h username line
  | .commandEntry | .processing => submitLine h i line

/-- Ask for the next line, if there can be one. -/
def endTurn (h : Host m) : Work m Unit := do
  if ← (h.channel.isOpen : m Bool) then sendPrompt h

/-- Answer a line for what the memory of the session makes of it. -/
def answer (h : Host m) (i : Inner m) (s : State) (line : String) : Work m Unit := do
  if s.stage = .password ∨ s.requireEcho = true then sendText h "\n"
  heed h i s.stage line
  endTurn h

theorem takeLine_eq [LawfulMonad m] (h : Host m) (i : Inner m) (line : String) :
    takeLine h i line = (do
      let s ← (h.state : m State)
      answer h i s line) := by
  unfold takeLine
  refine bind_congr fun s => ?_
  cases hstage : s.stage with
  | username => by_cases hp : h.config.password = "" <;> simp [answer, heed, endTurn, hstage, hp]
  | password => simp [answer, heed, endTurn, hstage]
  | commandEntry => simp [answer, heed, endTurn, hstage]
  | processing => simp [answer, heed, endTurn, hstage]

theorem Config.initialStage_ne_processing (c : Config) : c.initialStage ≠ .processing := by
  unfold Config.initialStage
  split_ifs <;> decide

theorem heed_of_not_login (h : Host m) (i : Inner m) {stage : Stage}
    (hs : stage.isLogin = false) (line : String) : heed h i stage line = submitLine h i line := by
  cases stage with
  | username => simp [Stage.isLogin] at hs
  | password => simp [Stage.isLogin] at hs
  | commandEntry => rfl
  | processing => rfl

theorem State.stage_endLine (s : State) : s.endLine.1.stage = s.stage := by
  unfold State.endLine
  split <;> rfl

theorem State.stage_edit (s : State) (c : Config) (b : UInt8) :
    (s.edit c b).1.stage = s.stage := by
  simp only [State.edit]
  split_ifs <;> rfl

/-- What is shown of a byte that was typed. -/
def State.shown (s : State) (c : Config) (b : UInt8) : Echo :=
  if s.showsTyping then (s.edit c b).2 else .none

theorem Host.change_bind [LawfulMonad m] (h : Host m) {α β : Type} (f : State → α × State)
    (next : α → Work m β) :
    (liftM (h.change f) : Work m α) >>= next = (do
      let s ← (h.state : m State)
      (h.setState (f s).2 : m Unit)
      next (f s).1) := by
  simp only [Host.change, liftM_bind, liftM_pure, bind_assoc, pure_bind]

theorem pressKey_eq [LawfulMonad m] (h : Host m) (i : Inner m) (b : UInt8) :
    pressKey h i b =
      if isLineEnd b then do
        match ← (h.change fun s => (s.endLine.2, s.endLine.1) : m (Option String)) with
        | none => return ()
        | some line => takeLine h i line
      else do
        let echo ← (h.change fun s => (s.shown h.config b, (s.edit h.config b).1) : m Echo)
        if echo ≠ .none then sendBytes h echo.bytes
        else return () := by
  by_cases hb : isLineEnd b
  · rw [if_pos hb, h.change_bind]
    exact bind_congr fun s => if_pos hb
  · have hpress : pressKey h i b = (do
        let s ← (h.state : m State)
        (h.setState (s.edit h.config b).1 : m Unit)
        if s.showsTyping ∧ (s.edit h.config b).2 ≠ .none then
          sendBytes h (s.edit h.config b).2.bytes) := bind_congr fun s => if_neg hb
    rw [if_neg hb, h.change_bind, hpress]
    refine bind_congr fun s => bind_congr fun _ => ?_
    by_cases hshows : s.showsTyping <;> simp [State.shown, hshows]

/-- What is done while a session is in the stage of a command: the handler, and what is
sent of its output. -/
def attend (h : Host m) (i : Inner m) (found : Match Handler) (a : Arguments) :
    m (Except Error Unit) := do
  let (outcome, a) ←
    perform h i found.entry.handler (a.bind found.count found.name found.entry.usage)
  let a ← match outcome with
    | .succeeded => pure a
    | .failed e => do
        h.count .failed
        pure (a.writeError h.config e.message)
    | .crashed => do
        h.count .failed
        pure (a.writeError h.config "internal error")
  return (← flush h a).1

theorem runCommand_run [LawfulMonad m] (h : Host m) (i : Inner m) (found : Match Handler)
    (a : Arguments) :
    (runCommand h i found a).run = (do
      h.count .dispatched
      h.setStage .processing
      let sent ← attend h i found a
      h.setStage .commandEntry
      return sent) := by
  unfold runCommand attend
  simp only [ExceptT.run_bind, ExceptT.run_liftM, bind_map_left, bind_assoc]
  refine bind_congr fun _ => bind_congr fun _ => bind_congr fun done => ?_
  obtain ⟨outcome, a⟩ := done
  cases outcome <;>
    simp only [pure_bind, bind_assoc, ExceptT.run_bind, ExceptT.run_liftM, bind_map_left] <;> rfl

/-- What is done for a command until its output is sent: the handler, and a line about its
failure. -/
def handle (h : Host m) (i : Inner m) (found : Match Handler) (a : Arguments) : m Arguments := do
  let (outcome, a) ←
    perform h i found.entry.handler (a.bind found.count found.name found.entry.usage)
  match outcome with
  | .succeeded => return a
  | .failed e => do
      h.count .failed
      return a.writeError h.config e.message
  | .crashed => do
      h.count .failed
      return a.writeError h.config "internal error"

theorem attend_eq [LawfulMonad m] (h : Host m) (i : Inner m) (found : Match Handler)
    (a : Arguments) :
    attend h i found a = (do
      let a ← handle h i found a
      return (← flush h a).1) := by
  unfold attend handle
  rw [bind_assoc]
  refine bind_congr fun done => ?_
  obtain ⟨outcome, a⟩ := done
  cases outcome with
  | succeeded => simp only [pure_bind]
  | failed e => simp only [bind_assoc, pure_bind]
  | crashed => simp only [bind_assoc, pure_bind]

end RemoteConsole.Session
