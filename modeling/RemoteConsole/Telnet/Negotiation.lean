/-
One side of one option under negotiation.  A request goes on the wire only from
a settled state; a contrary request made while one is under way waits for the
answer, and is forgotten if it is taken back before that.
-/
namespace RemoteConsole.Telnet

/-- Where one side of an option stands.  The four states between `off` and `on`
each await an answer of the peer; `disablingThenEnable` and `enablingThenDisable`
also hold the opposite request, to be made when the answer comes. -/
inductive Standing where
  | off
  | on
  | disabling
  | disablingThenEnable
  | enabling
  | enablingThenDisable
deriving DecidableEq, Repr

/-- What a transition asks for: nothing new, a change of state without a word to
the peer, or one command that enables or disables. -/
inductive Reaction where
  | ignored
  | updated
  | sendEnable
  | sendDisable
deriving DecidableEq, Repr

namespace Standing

def isOn (s : Standing) : Bool :=
  s = on

/-- Whether an answer of the peer is awaited. -/
def isPending (s : Standing) : Bool :=
  s ≠ off && s ≠ on

/-- We want the option on. -/
def requestEnable : Standing → Standing × Reaction
  | off => (enabling, .sendEnable)
  | disabling => (disablingThenEnable, .updated)
  | enablingThenDisable => (enabling, .updated)
  | s => (s, .ignored)

/-- We want the option off. -/
def requestDisable : Standing → Standing × Reaction
  | on => (disabling, .sendDisable)
  | enabling => (enablingThenDisable, .updated)
  | disablingThenEnable => (disabling, .updated)
  | s => (s, .ignored)

/-- The peer enables the option, or agrees to; `agree` is whether we accept an
offer that we did not ask for. -/
def receiveEnable (agree : Bool) : Standing → Standing × Reaction
  | off => if agree then (on, .sendEnable) else (off, .sendDisable)
  | on => (on, .ignored)
  | disabling => (off, .updated)
  | disablingThenEnable => (on, .updated)
  | enabling => (on, .updated)
  | enablingThenDisable => (disabling, .sendDisable)

/-- The peer disables the option, or refuses it. -/
def receiveDisable : Standing → Standing × Reaction
  | off => (off, .ignored)
  | on => (off, .sendDisable)
  | disabling => (off, .updated)
  | enabling => (off, .updated)
  | enablingThenDisable => (off, .updated)
  | disablingThenEnable => (enabling, .sendEnable)

end Standing

end RemoteConsole.Telnet
