/-
The option table: for each of the 256 options what the owner allows and where
both sides stand.
-/
import RemoteConsole.Telnet.Negotiation
import RemoteConsole.Telnet.OptionCode

namespace RemoteConsole.Telnet

/-- One option: whether we agree to perform it and let the peer perform it when
asked, and where the two sides stand. -/
structure OptionState where
  weCan : Bool := false
  ours : Standing := .off
  theyShould : Bool := false
  theirs : Standing := .off
deriving DecidableEq, Repr, Inhabited

namespace OptionState

/-- Where one side stands. -/
def standing (s : OptionState) : Side → Standing
  | .ours => s.ours
  | .theirs => s.theirs

/-- Move one side. -/
def move (s : OptionState) (side : Side) (standing : Standing) : OptionState :=
  match side with
  | .ours => { s with ours := standing }
  | .theirs => { s with theirs := standing }

/-- Whether the owner agrees when the peer asks for a side. -/
def agrees (s : OptionState) : Side → Bool
  | .ours => s.weCan
  | .theirs => s.theyShould

@[simp] theorem standing_move_self (s : OptionState) (side : Side) (standing : Standing) :
    (s.move side standing).standing side = standing := by
  cases side <;> rfl

@[simp] theorem agrees_move (s : OptionState) (side other : Side) (standing : Standing) :
    (s.move side standing).agrees other = s.agrees other := by
  cases side <;> cases other <;> rfl

end OptionState

/-- Policy and standing of every option. -/
structure OptionTable where
  states : Vector OptionState 256
deriving Repr

namespace OptionTable

/-- A table that refuses everything. -/
def empty : OptionTable :=
  ⟨Vector.replicate 256 {}⟩

def get (t : OptionTable) (o : OptionCode) : OptionState :=
  have inTable := o.code.toNat_lt
  t.states[o.code.toNat]

def set (t : OptionTable) (o : OptionCode) (s : OptionState) : OptionTable :=
  ⟨t.states.set o.code.toNat s o.code.toNat_lt⟩

@[simp] theorem get_set_self (t : OptionTable) (o : OptionCode) (s : OptionState) :
    (t.set o s).get o = s := by
  simp [get, set]

theorem get_set_ne (t : OptionTable) {o p : OptionCode} (s : OptionState) (h : p ≠ o) :
    (t.set o s).get p = t.get p := by
  have hcode : o.code.toNat ≠ p.code.toNat := fun hc => h <| by
    cases o; cases p; simp_all [UInt8.toNat_inj]
  simp [get, set, hcode]

/-- Allow or forbid our side when the peer asks for it. -/
def setWeCan (t : OptionTable) (o : OptionCode) (value : Bool) : OptionTable :=
  t.set o { t.get o with weCan := value }

/-- Allow or forbid the peer's side when the peer offers it. -/
def setTheyShould (t : OptionTable) (o : OptionCode) (value : Bool) : OptionTable :=
  t.set o { t.get o with theyShould := value }

/-- Put one side into a state without negotiation. -/
def reset (t : OptionTable) (o : OptionCode) (side : Side) (standing : Standing) :
    OptionTable :=
  t.set o ((t.get o).move side standing)

def standing (t : OptionTable) (o : OptionCode) (side : Side) : Standing :=
  (t.get o).standing side

def isOn (t : OptionTable) (o : OptionCode) (side : Side) : Bool :=
  (t.standing o side).isOn

/-- What may happen to one side of an option: a wish of the owner, or word from
the peer. -/
inductive Move where
  | requestEnable
  | requestDisable
  | receiveEnable
  | receiveDisable
deriving DecidableEq, Repr

/-- The transition of one side, given whether its owner agrees to offers. -/
def Move.apply (move : Move) (agree : Bool) (s : Standing) : Standing × Reaction :=
  match move with
  | .requestEnable => s.requestEnable
  | .requestDisable => s.requestDisable
  | .receiveEnable => s.receiveEnable agree
  | .receiveDisable => s.receiveDisable

/-- Move one side of an option. -/
def step (t : OptionTable) (o : OptionCode) (side : Side) (move : Move) :
    OptionTable × Reaction :=
  let s := t.get o
  let (standing, reaction) := move.apply (s.agrees side) (s.standing side)
  (t.set o (s.move side standing), reaction)

/-- Allow the given options on our side and on the peer's. -/
def allow (t : OptionTable) (weCan theyShould : List OptionCode) : OptionTable :=
  let t := weCan.foldl (fun t o => t.setWeCan o true) t
  theyShould.foldl (fun t o => t.setTheyShould o true) t

/-- The usual policy: the options that the engine performs itself, and those
that cost nothing to let the peer perform. -/
def standard : OptionTable :=
  empty.allow
    [.binary, .suppressGoAhead, .status, .timingMark, .terminalType, .terminalSpeed,
     .windowSize]
    [.binary, .suppressGoAhead, .status, .timingMark, .echo]

/-- Every option of which something is allowed, in order of code. -/
def policy (t : OptionTable) : List (OptionCode × Bool × Bool) :=
  ((List.range 256).map fun n =>
    let o : OptionCode := ⟨n.toUInt8⟩
    (o, (t.get o).weCan, (t.get o).theyShould)).filter fun (_, can, should) => can || should

end OptionTable

end RemoteConsole.Telnet
