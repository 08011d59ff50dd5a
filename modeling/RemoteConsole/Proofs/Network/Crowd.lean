/-
Calls side by side on the channels of a network.  Any of those under way may go on next,
to its next wait, and any call may begin at any time; a run is a list of such choices, so
that what holds of every list holds of every interleaving.
-/
import RemoteConsole.Network.Channel
import RemoteConsole.Proofs.Channel.Call
import RemoteConsole.Proofs.Routine.Laps

namespace RemoteConsole.Network

/-- What a call returns: bytes, which are none but for a read. -/
abbrev Answer := Except Channel.Error (List UInt8)

/-- A call that was made on a channel.  If it asks for a lock, its ticket is the number
given here. -/
structure Visit where
  channel : ChannelId
  call : Channel.Call
  ticket : Nat
deriving DecidableEq, Repr

/-- How far a call has come. -/
inductive Course (ρ : Type) where
  | returned (answer : Answer)
  /-- It waits, with something left to do. -/
  | waits (rest : ρ)

/-- Calls under way side by side, with `ρ` for what each has left to do. -/
structure Crowd (ρ : Type) where
  network : Network
  time : Nat := 0
  /-- The calls under way, in the order in which they were made. -/
  underway : List (Visit × ρ) := []
  /-- The calls that came to hold the lock of those who write to their channel, in the
  order in which they did. -/
  turns : List Visit := []
  /-- The calls that returned, in the order in which they did. -/
  returned : List (Visit × Answer) := []

/-- What may happen next. -/
inductive Act where
  /-- A call is made. -/
  | call (c : ChannelId) (call : Channel.Call)
  /-- The call at a place among those under way goes on, if it may. -/
  | goOn (place : Nat)
  | pass (time : Nat)

/-- Whether a call holds the lock of those who write to its channel. -/
def Visit.hasTurn (v : Visit) (n : Network) : Bool :=
  ((writeLock v.channel).get n).isHeldBy v.ticket

namespace Crowd

variable {ρ : Type}

/-- Record how far a new call came. -/
def enter (s : Crowd ρ) (v : Visit) : Network × Course ρ → Crowd ρ
  | (network, .returned answer) => { s with network, returned := s.returned ++ [(v, answer)] }
  | (network, .waits rest) => { s with network, underway := s.underway ++ [(v, rest)] }

/-- Record how far the call at a place came. -/
def proceed (s : Crowd ρ) (place : Nat) (v : Visit) : Network × Course ρ → Crowd ρ
  | (network, .returned answer) =>
      { s with
        network
        underway := s.underway.eraseIdx place
        returned := s.returned ++ [(v, answer)] }
  | (network, .waits rest) => { s with network, underway := s.underway.set place (v, rest) }

/-- Record who came to hold a lock since the network was as it was. -/
def noteTurns (s : Crowd ρ) (before : Network) : Crowd ρ :=
  { s with
    turns := s.turns ++
      (s.underway.map Prod.fst).filter fun v => v.hasTurn s.network && !v.hasTurn before }

end Crowd

/-- The calls of which the rest is work on the network. -/
abbrev Calls := Crowd (Work Empty Answer)

/-- How far work on a network has come. -/
def courseOf : Network × Work Empty Answer → Network × Course (Work Empty Answer)
  | (n, .done answer) => (n, .returned answer)
  | (n, rest) => (n, .waits rest)

namespace Calls

/-- No calls as yet. -/
def on (n : Network) : Calls :=
  { network := n }

def act (s : Calls) : Act → Calls
  | .call c call =>
      let v : Visit := ⟨c, call, s.network.tickets⟩
      (s.enter v (courseOf (((channel c).perform call).lap s.time s.network))).noteTurns s.network
  | .goOn place =>
      match s.underway[place]? with
      | none => s
      | some (v, rest) =>
          (s.proceed place v (courseOf (rest.goOn s.time s.network))).noteTurns s.network
  | .pass time => { s with time := s.time + time }

/-- What becomes of the calls as one thing happens after another. -/
def run (s : Calls) (acts : List Act) : Calls :=
  acts.foldl act s

end Calls

end RemoteConsole.Network
