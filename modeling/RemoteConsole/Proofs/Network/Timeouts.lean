/-
The read timeout of the end of a pipe.  A timeout that is too long for the cell is kept as
the longest one; of exactly one length that is finite nothing is kept.
-/
import RemoteConsole.Proofs.Network.Frame

namespace RemoteConsole

namespace Channel

namespace TimeoutCell

/-- The longest timeout that a cell can hold. -/
def ceiling : Nat :=
  UInt64.size - 2

/-- What a cell makes of a timeout.  One beyond the ceiling becomes the ceiling, but the one
right above it becomes none at all: its word is the one that stands for none. -/
def kept : Option Duration → Option Duration
  | .none => .none
  | some d =>
      if d.nanoseconds = ceiling + 1 then .none else some ⟨min d.nanoseconds ceiling⟩

theorem get_ofTimeout (timeout : Option Duration) : (ofTimeout timeout).get = kept timeout := by
  cases timeout with
  | none => rfl
  | some d =>
      obtain ⟨k⟩ := d
      by_cases hfits : k < UInt64.size
      · have hword : k.toUInt64.toNat = k := Nat.mod_eq_of_lt hfits
        have htop : k.toUInt64 = TimeoutCell.none ↔ k = ceiling + 1 := by
          rw [← UInt64.toNat_inj, hword]
          rfl
        have hmin : k ≠ ceiling + 1 → min k ceiling = k := by
          intro hne
          have hlt : k < ceiling + 2 := hfits
          omega
        simp only [ofTimeout, get, kept, hfits, if_true, htop, hword]
        split
        next => rfl
        next hne => rw [hmin hne]
      · have hlong : ceiling + 2 ≤ k := Nat.not_lt.mp hfits
        have hne : k ≠ ceiling + 1 := by omega
        have hmin : min k ceiling = ceiling := by omega
        simp only [ofTimeout, kept, hfits, hne, if_false, hmin]
        rfl

/-- To put back what was read changes nothing. -/
theorem ofTimeout_get (c : TimeoutCell) : ofTimeout c.get = c := by
  unfold get
  split
  next h => rw [ofTimeout, ← h]
  next h => simp [ofTimeout, UInt64.toNat_lt_size]

theorem kept_eq_none_iff (d : Duration) :
    kept (some d) = .none ↔ d.nanoseconds = UInt64.size - 1 := by
  change _ ↔ d.nanoseconds = ceiling + 1
  by_cases h : d.nanoseconds = ceiling + 1
  · simp [kept, h]
  · simp [kept, h]

/-- Of two timeouts that are kept at all, the longer is kept no shorter. -/
theorem kept_mono {d d' : Duration} (hle : d.nanoseconds ≤ d'.nanoseconds)
    {k k' : Duration} (hk : kept (some d) = some k) (hk' : kept (some d') = some k') :
    k.nanoseconds ≤ k'.nanoseconds := by
  simp only [kept, Option.ite_none_left_eq_some, Option.some.injEq] at hk hk'
  obtain ⟨-, rfl⟩ := hk
  obtain ⟨-, rfl⟩ := hk'
  exact Nat.le_min.mpr ⟨Nat.le_trans (Nat.min_le_left _ _) hle, Nat.min_le_right _ _⟩

end TimeoutCell

end Channel

namespace Network

open Channel (Duration TimeoutCell)

variable {n n' : Network} {c : ChannelId}

/-- To set the timeout of a channel leads at once from one state to another. -/
def Sets (c : ChannelId) (timeout : Option Duration) (n n' : Network) : Prop :=
  ∀ time, ((channel c).setReadTimeout timeout : Work Empty Unit).advance time n =
    (n', [], .done ())

/-- To ask a channel for its timeout shows this one at once, and changes nothing. -/
def Shows (c : ChannelId) (n : Network) (timeout : Option Duration) : Prop :=
  ∀ time, ((channel c).readTimeout : Work Empty (Option Duration)).advance time n =
    (n, [], .done timeout)

theorem sets_iff (hc : n.IsEnd c) {timeout : Option Duration} :
    Sets c timeout n n' ↔ n.updateEnd c ({ · with timeout := .ofTimeout timeout }) = n' := by
  obtain ⟨e, he⟩ := hc
  have hset : ∀ time, ((channel c).setReadTimeout timeout : Work Empty Unit).advance time n =
      (n.updateEnd c ({ · with timeout := .ofTimeout timeout }), [], .done ()) := by
    intro time
    change ((channelAt n.nodes c).setReadTimeout timeout : Work Empty Unit).advance time n = _
    rw [channelAt_pipe he]
    rfl
  constructor
  · intro hsets
    exact congrArg Prod.fst ((hset 0).symm.trans (hsets 0))
  · rintro rfl
    exact hset

theorem shows_iff (hc : n.IsEnd c) {timeout : Option Duration} :
    Shows c n timeout ↔ (n.pipeEnd c).timeout.get = timeout := by
  obtain ⟨e, he⟩ := hc
  have hread : ∀ time, ((channel c).readTimeout : Work Empty (Option Duration)).advance time n =
      (n, [], .done (n.pipeEnd c).timeout.get) := by
    intro time
    change ((channelAt n.nodes c).readTimeout : Work Empty (Option Duration)).advance time n = _
    rw [channelAt_pipe he]
    rfl
  constructor
  · intro hshows
    have hdone := (hread 0).symm.trans (hshows 0)
    simpa using hdone
  · rintro rfl
    exact hread

/-- An end that is given what it has is left as it is. -/
theorem updateEnd_self (hc : n.IsEnd c) {f : End → End} (hf : f (n.pipeEnd c) = n.pipeEnd c) :
    n.updateEnd c f = n := by
  obtain ⟨e, he⟩ := hc
  obtain ⟨hlt, hnode⟩ := Array.getElem?_eq_some_iff.mp he
  rw [pipeEnd_eq he] at hf
  rw [updateEnd_eq he, hf, setNode, ← hnode]
  simp [Array.setIfInBounds, hlt]

/-- A finite timeout that is set is shown again, cut short to the ceiling if it is longer,
unless it is the one right above the ceiling, which is shown as none; none is shown as none.
Timeouts that are kept are kept in order, and to set what is shown changes nothing. -/
theorem finite_timeout_kept_iff (hc : n.IsEnd c) :
    (∀ timeout, ∃ n', Sets c timeout n n' ∧ Shows c n' (TimeoutCell.kept timeout)) ∧
      (∀ d : Duration, TimeoutCell.kept (some d) = none ↔ d.nanoseconds = UInt64.size - 1) ∧
      (∀ d d' k k' : Duration, d.nanoseconds ≤ d'.nanoseconds →
        TimeoutCell.kept (some d) = some k → TimeoutCell.kept (some d') = some k' →
          k.nanoseconds ≤ k'.nanoseconds) ∧
      ∀ timeout, Shows c n timeout → Sets c timeout n n := by
  refine ⟨fun timeout => ?_, fun d => ?_, fun d d' k k' hle hk hk' => ?_, fun timeout h => ?_⟩
  · have hend : (n.updateEnd c ({ · with timeout := .ofTimeout timeout })).IsEnd c :=
      hc.updateEnd
    refine ⟨_, (sets_iff hc).mpr rfl, (shows_iff hend).mpr ?_⟩
    rw [pipeEnd_updateEnd_self hc]
    exact TimeoutCell.get_ofTimeout timeout
  · exact TimeoutCell.kept_eq_none_iff d
  · exact TimeoutCell.kept_mono hle hk hk'
  · obtain rfl := (shows_iff hc).mp h
    rw [sets_iff hc]
    apply updateEnd_self hc
    rw [TimeoutCell.ofTimeout_get]

/-- A timeout of 2^64 ns is shown as one of two less. -/
theorem finite_timeout_kept_cut :
    let n := (({} : Network).addPipe 8 none none).2.2
    n.IsEnd 0 ∧ ∃ n', Sets 0 (some ⟨UInt64.size⟩) n n' ∧ Shows 0 n' (some ⟨UInt64.size - 2⟩) := by
  intro n
  have hend : n.IsEnd 0 := ⟨_, rfl⟩
  obtain ⟨hkept, -⟩ := finite_timeout_kept_iff hend
  exact ⟨hend, hkept (some ⟨UInt64.size⟩)⟩

/-- A timeout of 2^64 - 1 ns, once set, is shown as none. -/
theorem finite_timeout_lost :
    let n := (({} : Network).addPipe 8 none none).2.2
    let d := Duration.ofSeconds 18446744073 709551615
    d.nanoseconds = UInt64.size - 1 ∧ ∃ n', Sets 0 (some d) n n' ∧ Shows 0 n' none := by
  intro n d
  have hend : n.IsEnd 0 := ⟨_, rfl⟩
  have hlater : (n.updateEnd 0 ({ · with timeout := .ofTimeout (some d) })).IsEnd 0 :=
    hend.updateEnd
  exact ⟨rfl, _, (sets_iff hend).mpr rfl, (shows_iff hlater).mpr rfl⟩

end Network

end RemoteConsole
