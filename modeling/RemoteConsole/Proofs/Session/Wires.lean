/-
What Telnet does over a channel is of the kind of what its setting and that channel do.  So
the transport of a desk is closed for good, and the commands of a desk are changed by nothing
but the session, with Telnet between them or not.
-/
import RemoteConsole.Proofs.Session.Trace

namespace RemoteConsole.Session

open Telnet (LinkHold)

section

variable {m : Type → Type u} [Monad m]

/-- What Telnet over a channel uses is of a kind. -/
structure Carries (hold : LinkHold m) (below : Channel m) (Ok : ∀ α : Type, m α → Prop) : Prop
    extends Joins Ok where
  get : Ok _ hold.get
  set : ∀ l, Ok _ (hold.set l)
  report : ∀ events, Ok _ (hold.report events)
  alone : ∀ {α : Type} {call : m α}, Ok α call → Ok α (hold.alone call)
  isOpen : Ok _ below.isOpen
  read : ∀ count, Ok _ (below.read count)
  write : ∀ bytes, Ok _ (below.write bytes)

variable {hold : LinkHold m} {below : Channel m} {Ok : ∀ α : Type, m α → Prop}
  (h : Carries hold below Ok)

include h

theorem Carries.flush : Ok _ (hold.flush below) := by
  refine h.bind h.get fun l => ?_
  split
  · exact h.pure _
  · exact h.bind (h.set _) fun _ => h.write _

theorem Carries.take (count chunks : Nat) : Ok _ (hold.take below count chunks) := by
  induction chunks with
  | zero => exact h.pure _
  | succ chunks ih =>
      have hreceive (bytes : List UInt8) : Ok _ (hold.receive bytes) :=
        h.bind h.get fun _ => h.bind (h.set _) fun _ => h.report _
      refine h.bind h.get fun l => ?_
      split
      · exact h.bind (h.set _) fun _ => h.pure _
      · refine h.bind (h.read _) fun result => ?_
        cases result with
        | error e => exact h.pure _
        | ok bytes =>
            refine h.bind (hreceive bytes) fun _ => h.bind h.flush fun flushed => ?_
            cases flushed with
            | error e => exact h.pure _
            | ok _ => exact ih

theorem Carries.channel_read (count : Nat) : Ok _ ((hold.channel below).read count) := by
  refine h.bind h.isOpen fun opened => ?_
  split
  · exact h.pure _
  split
  · exact h.pure _
  · exact h.alone (h.take count _)

theorem Carries.channel_write (bytes : List UInt8) : Ok _ ((hold.channel below).write bytes) := by
  refine h.bind h.isOpen fun opened => ?_
  split
  · exact h.pure _
  · exact h.bind h.get fun _ => h.write _

variable [LawfulMonad m]

theorem Carries.channel_setLocalEcho (enabled : Bool) :
    Ok _ ((hold.channel below).setLocalEcho enabled) := by
  have hensure : Ok _ (LinkHold.ensureOpen below).run := by
    refine h.seq (h.lift h.isOpen) fun opened => ?_
    split <;> exact h.pure _
  have hact {α : Type} (f : Telnet.Engine → Telnet.Engine × Telnet.Output × α) :
      Ok _ (hold.act f) :=
    h.bind h.get fun _ => h.bind (h.set _) fun _ => h.bind (h.report _) fun _ => h.pure _
  have hflush : Ok _ (LinkHold.below (hold.flush below)).run := by
    refine h.seq (h.lift h.flush) fun flushed => ?_
    cases flushed <;> exact h.pure _
  have hrequest : Ok _ (hold.request below .ours .echo (!enabled)).run :=
    h.seq hensure fun _ => h.seq (h.lift (hact _)) fun _ => h.seq hflush fun _ => h.pure _
  refine h.bind hrequest fun result => ?_
  cases result <;> exact h.pure _

end

/-! A session alone at a desk. -/

namespace Desk

/-- Work that leaves the commands of a desk as they are. -/
def KeepsCommands (α : Type) (x : StateM Desk α) : Prop :=
  ∀ d : Desk, (x.run d).2.registry = d.registry

theorem keepsCommands_joins : Joins KeepsCommands where
  pure _ _ := rfl
  bind hx hf d := (hf _ _).trans (hx d)

theorem keepsCommands_note (n : Note) : KeepsCommands _ (note n) :=
  fun _ => rfl

theorem carries_keepsCommands : Carries hold wire KeepsCommands where
  toJoins := keepsCommands_joins
  get _ := rfl
  set _ _ := rfl
  report events := by
    induction events with
    | nil => exact fun _ => rfl
    | cons event events ih => exact keepsCommands_joins.bind (keepsCommands_note _) fun _ => ih
  alone hcall := hcall
  isOpen _ := rfl
  read _ _ := rfl
  write _ _ := rfl

theorem keepsCommands_read (telnet : Bool) (count : Nat) :
    KeepsCommands _ ((channel telnet).read count) := by
  cases telnet with
  | false => exact carries_keepsCommands.read count
  | true => exact carries_keepsCommands.channel_read count

theorem keepsCommands_write (telnet : Bool) (bytes : List UInt8) :
    KeepsCommands _ ((channel telnet).write bytes) := by
  cases telnet with
  | false => exact carries_keepsCommands.write bytes
  | true => exact carries_keepsCommands.channel_write bytes

theorem keepsCommands_setLocalEcho (telnet enabled : Bool) :
    KeepsCommands _ ((channel telnet).setLocalEcho enabled) := by
  cases telnet with
  | false => exact fun _ => rfl
  | true => exact carries_keepsCommands.channel_setLocalEcho enabled

theorem keepsCommands_close (telnet : Bool) : KeepsCommands _ (channel telnet).close := by
  cases telnet <;> exact fun _ => rfl

theorem keepsCommands_isOpen (telnet : Bool) : KeepsCommands _ (channel telnet).isOpen := by
  cases telnet <;> exact fun _ => rfl

/-- Nothing but the session changes the commands of a desk. -/
theorem modest_around (d : Desk) :
    d.around.Modest fun w => w.registry.Only Action.IsModest where
  ask q s w hq hw := by
    have hkeeps {α : Type} {work : StateM Desk α} (hwork : KeepsCommands α work) :
        (work.run w).2.registry.Only Action.IsModest := (hwork w).symm ▸ hw
    cases q with
    | read count => cases hq
    | write bytes => exact hkeeps (keepsCommands_write _ bytes)
    | close => exact hkeeps (keepsCommands_close _)
    | isOpen => exact hkeeps (keepsCommands_isOpen _)
    | setLocalEcho enabled => exact hkeeps (keepsCommands_setLocalEcho _ enabled)
    | validate username password => cases hq
    | setRegistry registry => exact hq
    | registry | note n | count metric | awaitEnd | sleep time | broadcast text | collect
    | removeSession i => exact hw
  validate _ _ _ _ hw := hw
  registry _ _ hw := hw
  read count s w hw := (keepsCommands_read _ count w).symm ▸ hw
  note _ _ _ hw := hw

theorem closes_channel (telnet : Bool) :
    (channel telnet).Closes fun w => w.transport.isOpen = false := by
  have hwire : wire.Closes fun w => w.transport.isOpen = false :=
    Channel.Scripted.closes (fun d : Desk => d.transport)
      (fun transport d => { d with transport }) fun _ _ => rfl
  cases telnet with
  | false => exact hwire
  | true => exact hwire.telnet hold

/-- A desk is closed for good. -/
theorem closes_around (d : Desk) : d.around.Closes fun w => w.transport.isOpen = false where
  channel _ := closes_channel d.link.isSome
  ask q s w hw := by
    have hchannel := closes_channel d.link.isSome
    cases q with
    | read count => exact (hchannel.read count w hw).2
    | write bytes => exact (hchannel.write bytes w hw).2
    | close => exact hchannel.close w
    | isOpen => exact (hchannel.isOpen w hw).2
    | setLocalEcho enabled => exact hchannel.setLocalEcho enabled w hw
    | _ => exact hw

end Desk

end RemoteConsole.Session
