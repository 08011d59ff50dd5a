/-
What an owner does with an engine.  A run is a list of calls; nothing but calls
changes an engine.
-/
import RemoteConsole.Proofs.Telnet.Reader
import RemoteConsole.Proofs.Telnet.Table

namespace RemoteConsole.Telnet

namespace OptionTable

/-- Allow or forbid a side of an option. -/
def permit (t : OptionTable) (side : Side) (o : OptionCode) (value : Bool) : OptionTable :=
  match side with
  | .ours => t.setWeCan o value
  | .theirs => t.setTheyShould o value

/-- Policy settles nothing. -/
theorem standing_permit (t : OptionTable) (side : Side) (o : OptionCode) (value : Bool)
    (p : OptionCode) (other : Side) :
    (t.permit side o value).standing p other = t.standing p other := by
  by_cases hp : p = o
  · subst hp
    cases side <;> cases other <;>
      simp [permit, setWeCan, setTheyShould, standing, OptionState.standing]
  · cases side <;> simp [permit, setWeCan, setTheyShould, standing, get_set_ne _ _ hp]

theorem agrees_permit_self (t : OptionTable) (side : Side) (o : OptionCode) (value : Bool) :
    ((t.permit side o value).get o).agrees side = value := by
  cases side <;> simp [permit, setWeCan, setTheyShould, OptionState.agrees]

theorem agrees_permit_of_ne (t : OptionTable) {side other : Side} {o p : OptionCode}
    (value : Bool) (h : ¬(other = side ∧ p = o)) :
    ((t.permit side o value).get p).agrees other = (t.get p).agrees other := by
  by_cases hp : p = o
  · subst hp
    cases side <;> cases other <;>
      simp_all [permit, setWeCan, setTheyShould, OptionState.agrees]
  · cases side <;> simp [permit, setWeCan, setTheyShould, get_set_ne _ _ hp]

theorem standing_empty (o : OptionCode) (side : Side) : empty.standing o side = .off := by
  cases side <;> simp [empty, standing, get, OptionState.standing]

theorem standing_foldl_permit (t : OptionTable) (side : Side) (os : List OptionCode)
    (p : OptionCode) (other : Side) :
    (os.foldl (fun t o => t.permit side o true) t).standing p other =
      t.standing p other := by
  induction os generalizing t with
  | nil => rfl
  | cons o os ih =>
      rw [List.foldl_cons, ih, standing_permit]

theorem standing_allow (t : OptionTable) (weCan theyShould : List OptionCode)
    (o : OptionCode) (side : Side) :
    (t.allow weCan theyShould).standing o side = t.standing o side := by
  have hours := standing_foldl_permit t .ours weCan o side
  have htheirs := standing_foldl_permit
    (weCan.foldl (fun t o => t.permit .ours o true) t) .theirs theyShould o side
  exact htheirs.trans hours

end OptionTable

/-- What is chosen for an engine before it starts: its values and limits, and the
options allowed on either side. -/
structure Setup where
  settings : Settings := {}
  weCan : List OptionCode := []
  theyShould : List OptionCode := []
deriving DecidableEq, Repr

/-- An engine at its start. -/
def Setup.engine (s : Setup) : Engine where
  settings := s.settings
  options := OptionTable.empty.allow s.weCan s.theyShould

@[simp] theorem Setup.standing_engine (s : Setup) (o : OptionCode) (side : Side) :
    s.engine.options.standing o side = .off := by
  rw [Setup.engine, OptionTable.standing_allow, OptionTable.standing_empty]

inductive Call where
  | request (side : Side) (o : OptionCode) (enable : Bool)
  | permit (side : Side) (o : OptionCode) (value : Bool)
  | decode (bytes : List UInt8)
  | encode (data : List UInt8)
  | urgent
  | command (c : Command)
  | timingMark
  | subnegotiation (o : OptionCode) (payload : List UInt8)
  | resize (columns rows : UInt16)
  | setTerminalType (value : String)
  | setTerminalSpeed (value : UInt32)
deriving DecidableEq, Repr

namespace Call

/-- The data that a call sends. -/
def data : Call → List UInt8
  | .encode data => data
  | _ => []

/-- What a call wishes for a side of an option, if anything. -/
def wish? (side : Side) (o : OptionCode) : Call → Option Bool
  | .request s p enable => if side = s ∧ o = p then some enable else none
  | _ => none

/-- Neither a wish nor a decision about a side of an option. -/
def Leaves (side : Side) (o : OptionCode) : Call → Prop
  | .request s p _ => ¬(side = s ∧ o = p)
  | .permit s p _ => ¬(side = s ∧ o = p)
  | _ => True

instance (side : Side) (o : OptionCode) : DecidablePred (Leaves side o)
  | .request _ _ _ => instDecidableNot
  | .permit _ _ _ => instDecidableNot
  | .decode _ | .encode _ | .urgent | .command _ | .timingMark | .subnegotiation _ _
  | .resize _ _ | .setTerminalType _ | .setTerminalSpeed _ => .isTrue trivial

theorem Leaves.wish? {side : Side} {o : OptionCode} {call : Call} (h : call.Leaves side o) :
    call.wish? side o = none := by
  cases call with
  | request s p enable => exact if_neg h
  | _ => rfl

/-- The command that a call sends. -/
def command? : Call → Option Command
  | .command c => some c
  | _ => none

end Call

namespace Engine

/-- Make one call. -/
def call (e : Engine) : Call → Engine × Output
  | .request side o enable => ((e.request side o enable).1, (e.request side o enable).2.1)
  | .permit side o value => ({ e with options := e.options.permit side o value }, {})
  | .decode bytes => e.decode bytes
  | .encode data => (e, { sent := e.encode data })
  | .urgent => (e.onUrgent, {})
  | .command c => (e, { sent := commandBytes c })
  | .timingMark => e.requestTimingMark
  | .subnegotiation o payload => (e, { sent := subnegotiation o payload })
  | .resize columns rows => e.setWindowSize columns rows
  | .setTerminalType value =>
      ({ e with settings := { e.settings with terminalType := value } }, {})
  | .setTerminalSpeed value =>
      ({ e with settings := { e.settings with terminalSpeed := value } }, {})

/-- Make calls in order. -/
def calls (e : Engine) : List Call → Engine × Output
  | [] => (e, {})
  | c :: rest =>
      let (e', first) := e.call c
      let (e'', others) := e'.calls rest
      (e'', first ++ others)

theorem calls_append (e : Engine) (x y : List Call) :
    e.calls (x ++ y) =
      (((e.calls x).1.calls y).1, (e.calls x).2 ++ ((e.calls x).1.calls y).2) := by
  induction x generalizing e with
  | nil => simp [calls]
  | cons c x ih => simp [calls, ih, Output.append_assoc]

/-- Decoding in chunks is decoding what they make up. -/
theorem calls_map_decode (e : Engine) (chunks : List (List UInt8)) :
    e.calls (chunks.map .decode) = e.decode chunks.flatten := by
  induction chunks generalizing e with
  | nil => rfl
  | cons chunk chunks ih => simp [calls, call, ih, decode_append]

/-- The option table once a wish has been made. -/
def wished (e : Engine) (side : Side) (o : OptionCode) (enable : Bool) :
    OptionTable × Reaction :=
  e.options.step o side (if enable then .requestEnable else .requestDisable)

theorem call_request (e : Engine) (side : Side) (o : OptionCode) (enable : Bool) :
    e.call (.request side o enable) =
      ({ e with options := (e.wished side o enable).1 },
        { sent := reactionBytes side o (e.wished side o enable).2 }) := rfl

/-- A wish moves its own side of its own option. -/
theorem standing_wished (e : Engine) (side : Side) (o : OptionCode) (enable : Bool) :
    (e.wished side o enable).1.standing o side =
      ((e.options.standing o side).wish enable).1 := by
  rw [wished, OptionTable.standing_step_self, OptionTable.apply_wish]

theorem standing_wished_of_ne (e : Engine) {side other : Side} {o p : OptionCode}
    (enable : Bool) (h : ¬(other = side ∧ p = o)) :
    (e.wished side o enable).1.standing p other = e.options.standing p other :=
  OptionTable.standing_step_of_ne _ _ _ _ h

theorem reaction_wished (e : Engine) (side : Side) (o : OptionCode) (enable : Bool) :
    (e.wished side o enable).2 = ((e.options.standing o side).wish enable).2 := by
  rw [wished, OptionTable.snd_step, OptionTable.apply_wish]

end Engine

end RemoteConsole.Telnet
