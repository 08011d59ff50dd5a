/-
The near end of a connection held by a Telnet channel.  The pipes are the channel
beneath it, and each of its calls comes to moves at that end: a call of the owner and
putting what is queued on the wire, or receiving chunks until there is clean data.
-/
import RemoteConsole.Channel.Telnet
import RemoteConsole.Proofs.Telnet.Connection

namespace RemoteConsole.Telnet

namespace Connection

/-- What the near end has yielded waits there to be read. -/
def hold : LinkHold (StateM Connection) where
  get c := (⟨c.near.engine, c.near.outbound, c.near.clean⟩, c)
  set l c := ((), ⟨⟨l.engine, l.outbound, c.near.wire, l.pending⟩, c.far⟩)
  report _ := pure ()
  alone call := call
  aloneNow call := some <$> call

/-- A pipe with nothing in it has a read time out, and takes every write. -/
def pipe : RemoteConsole.Channel (StateM Connection) where
  read count c :=
    if c.far.wire = [] then (.error .timeout, c)
    else (.ok (c.far.wire.take count),
      ⟨c.near, { c.far with wire := c.far.wire.drop count }⟩)
  write bytes c := (.ok (), ⟨{ c.near with wire := c.near.wire ++ bytes }, c.far⟩)
  close := pure (.ok ())
  isOpen := pure true
  readTimeout := pure none
  setReadTimeout _ := pure ()
  sendUrgent _ _ := pure (.ok ())
  setLocalEcho _ := pure (.ok ())
  peerAddress := pure none

def channel : RemoteConsole.Channel (StateM Connection) :=
  hold.channel pipe

/-- Take clean data away from the near end. -/
def leave (c : Connection) (clean : List UInt8) : Connection :=
  ⟨{ c.near with clean }, c.far⟩

/-! Calls that stop at an error. -/

theorem run_bind {α β : Type} (x : Attempt (StateM Connection) α)
    (f : α → Attempt (StateM Connection) β) (c : Connection) :
    (x >>= f).run.run c =
      match x.run.run c with
      | (.ok a, c') => (f a).run.run c'
      | (.error e, c') => (.error e, c') := by
  rw [ExceptT.run_bind, StateT.run_bind]
  generalize x.run.run c = next
  rcases next with ⟨result, c'⟩
  cases result <;> rfl

theorem run_lift {α : Type} (x : StateM Connection α) (c : Connection) :
    (liftM x : Attempt (StateM Connection) α).run.run c =
      (.ok (x.run c).1, (x.run c).2) := rfl

/-! Requests. -/

theorem run_flush (c : Connection) : (hold.flush pipe).run c = (.ok (), c.act .take) := by
  change (if c.near.outbound = [] then pure (Except.ok ()) else do
    hold.set { engine := c.near.engine, pending := c.near.clean }
    pipe.write c.near.outbound : StateM Connection _).run c = _
  split
  next hout =>
      have htake : c.act .take = c := by
        obtain ⟨⟨engine, outbound, wire, clean⟩, far⟩ := c
        obtain rfl : outbound = [] := hout
        simp [act, Party.take]
      rw [htake]
      rfl
  next => rfl

theorem run_below_flush (c : Connection) :
    (LinkHold.below (hold.flush pipe)).run.run c = (.ok (), c.act .take) := by
  unfold LinkHold.below
  rw [run_bind, run_lift, run_flush]
  rfl

theorem run_act_request (c : Connection) (side : Side) (o : OptionCode) (enable : Bool) :
    (hold.act (·.request side o enable)).run c =
      ((c.near.engine.request side o enable).2.2, c.act (.call (.request side o enable))) := by
  let next := c.near.engine.request side o enable
  have hclean : next.2.1.clean = [] := rfl
  change (next.2.2, (⟨⟨next.1, c.near.outbound ++ next.2.1.sent, c.near.wire, c.near.clean⟩,
    c.far⟩ : Connection)) = _
  simp [act, Party.moved, Engine.call, next, hclean]

theorem run_request (c : Connection) (side : Side) (o : OptionCode) (enable : Bool) :
    (hold.request pipe side o enable).run.run c =
      (.ok (c.near.engine.request side o enable).2.2,
        (c.act (.call (.request side o enable))).act .take) := by
  have hopen : (LinkHold.ensureOpen pipe).run.run c = (.ok (), c) := rfl
  unfold LinkHold.request LinkHold.negotiate
  rw [run_bind, hopen]
  simp only
  rw [run_bind, run_lift, run_act_request]
  simp only
  rw [run_bind, run_below_flush]
  rfl

/-- The far end echoes what its user types just if we do not. -/
theorem run_setLocalEcho (c : Connection) (enabled : Bool) :
    (channel.setLocalEcho enabled).run c =
      (.ok (), (c.act (.call (.request .ours .echo (!enabled)))).act .take) := by
  unfold channel LinkHold.channel
  simp only
  rw [StateT.run_bind, run_request]
  rfl

/-! Reads. -/

theorem run_get (c : Connection) :
    hold.get.run c = (⟨c.near.engine, c.near.outbound, c.near.clean⟩, c) := rfl

theorem run_read_pipe (c : Connection) (count : Nat) :
    (pipe.read count).run c =
      if c.far.wire = [] then (.error .timeout, c)
      else (.ok (c.far.wire.take count),
        ⟨c.near, { c.far with wire := c.far.wire.drop count }⟩) := rfl

theorem run_take (c : Connection) (count chunks : Nat) :
    (hold.take pipe count (chunks + 1)).run c =
      if c.near.clean ≠ [] then
        (.ok (c.near.clean.take count), c.leave (c.near.clean.drop count))
      else if c.far.wire = [] then (.error .timeout, c)
      else (hold.take pipe count chunks).run
        ((c.act (.receive (max c.near.engine.settings.chunkSize 1))).act .take) := by
  rw [LinkHold.take, StateT.run_bind, run_get]
  change (if c.near.clean ≠ [] then _ else _ : StateM Connection _).run c = _
  split
  · rfl
  · rw [StateT.run_bind, run_read_pipe]
    split
    · rfl
    · change (hold.receive _ >>= fun _ => _ : StateM Connection _).run _ = _
      rw [StateT.run_bind]
      change ((hold.flush pipe >>= fun _ => _ : StateM Connection _).run
        (c.act (.receive (max c.near.engine.settings.chunkSize 1)))) = _
      rw [StateT.run_bind, run_flush]
      rfl

/-- What receiving, sending off and taking clean data away keep, a read keeps. -/
theorem read_induction {P : Connection → Prop}
    (hreceive : ∀ c count, P c → P (c.act (.receive count)))
    (htake : ∀ c, P c → P (c.act .take)) (hleave : ∀ c clean, P c → P (c.leave clean))
    {c : Connection} (h : P c) (count : Nat) : P ((channel.read count).run c).2 := by
  have hchunks : ∀ chunks c, P c → P ((hold.take pipe count chunks).run c).2 := by
    intro chunks
    induction chunks with
    | zero =>
        intro c h
        exact h
    | succ chunks ih =>
        intro c h
        rw [run_take]
        split
        · exact hleave c _ h
        · split
          · exact h
          · apply ih
            apply htake
            exact hreceive c _ h
  change P ((if count = 0 then pure (.ok []) else hold.take pipe count hold.chunks :
    StateM Connection _).run c).2
  split
  · exact h
  · exact hchunks hold.chunks c h

end Connection

end RemoteConsole.Telnet
