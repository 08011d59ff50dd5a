/-
A pair once it is closed.  Its mark is its own, so whatever else goes on, a closed pair
stays closed; what is asked of it then goes no further.
-/
import RemoteConsole.Channel.Pair
import RemoteConsole.Network.Channel
import RemoteConsole.Proofs.Channel.Call
import RemoteConsole.Proofs.Routine.Along

namespace RemoteConsole.Channel

open Routine (Along Follows)

namespace Call

/-- Calls that a pair leaves to a half without a look at its own mark. -/
def isPassedOn : Call → Bool
  | setReadTimeout _ | setLocalEcho _ => true
  | read _ | write _ | close | sendUrgent _ _ => false

/-- What comes of a call on a channel that does nothing. -/
def refusal : Call → Except Error (List UInt8)
  | close | setReadTimeout _ => .ok []
  | read _ | write _ | sendUrgent _ _ | setLocalEcho _ => .error .notOpen

end Call

/-- A state of any kind, and the mark of a pair beside it. -/
structure Marked (S : Type) where
  closed : Bool
  rest : S

namespace Marked

variable {J S α : Type}

/-- Work on the state beside the mark. -/
def beside : Routine J S α → Routine J (Marked S) α :=
  Routine.within rest fun s t => { t with rest := s }

/-- The mark of a pair, which is no one else's. -/
def hold : PairHold (Routine J (Marked S)) where
  isClosed := return (← Routine.get).closed
  markClosed := Routine.modify ({ · with closed := true })
  whileOpen call := call.giveUpWhen closed

/-- The pair of any two channels on the state beside its mark. -/
def pair (owns : Ownership) (reader writer : Channel (Routine J S)) :
    Channel (Routine J (Marked S)) :=
  Channel.pair hold owns (reader.map beside) (writer.map beside)

/-- Others may do anything, but a pair that is closed stays closed. -/
def StaysClosed (t t' : Marked S) : Prop :=
  t.closed = true → t'.closed = true

/-- What a closed pair still does. -/
structure Inert (c : Channel (Routine J (Marked S))) (t : Marked S) : Prop where
  /-- Of itself it does nothing at all, and says so at once. -/
  still : ∀ calls, (∀ call ∈ calls, call.isPassedOn = false) → ∀ time,
    (c.performAll calls).advance time t = (t, [], .done (calls.map Call.refusal))
  /-- Nothing that it passes on opens it again. -/
  refuses : ∀ calls, Along StaysClosed StaysClosed
    (fun results _ => List.Forall₂
      (fun call result => call.isPassedOn = false → result = Call.refusal call) calls results)
    (c.performAll calls) t

variable {owns : Ownership} {reader writer : Channel (Routine J S)} {t : Marked S}

theorem follows_beside (r : Routine J S α) : Follows StaysClosed α (beside r) :=
  Routine.follows_within (fun _ _ hclosed => hclosed) r

theorem along_of_follows {r : Routine J (Marked S) α} (h : Follows StaysClosed α r)
    (ht : t.closed = true) :
    Along StaysClosed StaysClosed (fun _ t' => t'.closed = true) r t := by
  have hkeeps := (h t).keeps (I := fun t => t.closed = true) (fun _ _ hs hstays => hstays hs) ht
  exact hkeeps.mono (fun _ _ hclosed _ => hclosed) fun _ _ hlast => hlast.2

/-- Once the mark is made, closing the writer leaves it. -/
theorem along_closeWriter (owns : Ownership) (ht : t.closed = true) :
    Along StaysClosed StaysClosed (fun _ t' => t'.closed = true)
      (do
        if owns.writer then
          if let .error e ← beside writer.close then return .error e
        return .ok () : Routine J (Marked S) (Except Error Unit)) t := by
  cases owns.writer with
  | false => exact ht
  | true =>
      apply Along.bind (along_of_follows (follows_beside writer.close) ht)
      rintro (e | _) t' ht'
      · exact ht'
      · exact ht'

/-- The mark is made before the halves are closed, if they are. -/
theorem along_close (t : Marked S) :
    Along StaysClosed StaysClosed (fun _ t' => t'.closed = true) (pair owns reader writer).close
      t := by
  rcases t with ⟨_ | _, rest⟩
  · refine ⟨fun _ => rfl, ?_⟩
    rcases owns with ⟨_ | _, ownsWriter⟩
    · exact along_closeWriter ⟨false, ownsWriter⟩ rfl
    · apply Along.bind (along_of_follows (follows_beside reader.close) rfl)
      rintro (e | _) t ht
      · exact ht
      · exact along_closeWriter ⟨true, ownsWriter⟩ ht
  · exact rfl

theorem advance_perform {call : Call} (hcall : call.isPassedOn = false) (ht : t.closed = true)
    (time : Nat) :
    ((pair owns reader writer).perform call).advance time t = (t, [], .done call.refusal) := by
  rcases t with ⟨closed, rest⟩
  obtain rfl : closed = true := ht
  cases call with
  | read | write | close | sendUrgent => rfl
  | setReadTimeout | setLocalEcho => contradiction

theorem along_perform (call : Call) (ht : t.closed = true) :
    Along StaysClosed StaysClosed
      (fun result t' => (call.isPassedOn = false → result = call.refusal) ∧ t'.closed = true)
      ((pair owns reader writer).perform call) t := by
  rcases t with ⟨closed, rest⟩
  obtain rfl : closed = true := ht
  cases call with
  | read | write | close | sendUrgent => exact ⟨fun _ => rfl, rfl⟩
  | setReadTimeout timeout =>
      apply Along.bind (along_of_follows (follows_beside (reader.setReadTimeout timeout)) rfl)
      intro _ t' ht'
      exact ⟨nofun, ht'⟩
  | setLocalEcho enabled =>
      apply Along.bind (along_of_follows (follows_beside (writer.setLocalEcho enabled)) rfl)
      intro _ t' ht'
      exact ⟨nofun, ht'⟩

/-- A pair that is marked is inert. -/
theorem inert_of_closed (ht : t.closed = true) : Inert (pair owns reader writer) t where
  still calls hcalls time := by
    induction calls with
    | nil => rfl
    | cons call calls ih =>
        obtain ⟨hcall, hcalls⟩ := List.forall_mem_cons.mp hcalls
        rw [performAll, Routine.advance_bind (advance_perform hcall ht time),
          Routine.advance_bind (ih hcalls)]
        rfl
  refuses calls := by
    induction calls generalizing t with
    | nil => exact .nil
    | cons call calls ih =>
        apply Along.bind (along_perform call ht)
        rintro result t' ⟨hresult, ht'⟩
        apply Along.bind (ih ht')
        intro results _ hresults
        exact .cons hresult hresults

/-- Once the call that closes a pair has returned, the pair is inert for good, whatever others
do with its halves meanwhile: reads, writes and urgent bytes fail at once with nothing done,
and only the echo and the timeout of a half can still be reached through it. -/
theorem closed_pair_inert (owns : Ownership) (reader writer : Channel (Routine J S))
    (t : Marked S) :
    Along StaysClosed StaysClosed
      (fun _ t => ∀ t', StaysClosed t t' → Inert (pair owns reader writer) t')
      (pair owns reader writer).close t := by
  apply (along_close t).mono (fun _ _ h => h)
  intro _ t ht t' hstays
  exact inert_of_closed (hstays ht)

end Marked

/-- A closed pair that owns neither half, over a transport and Telnet on the same transport:
the timeout of the one is changed through it, and the other made to offer its echo. -/
theorem closed_pair_passes_on :
    let pair : Channel (Network.Work Empty) := Network.channel 2
    let n : Network := { nodes := #[.scripted {}, .telnet 0 {} {}, .pair 0 1 .neither false] }
    let closed := (pair.close.advance 0 n).1
    let later := ((pair.performAll [.setReadTimeout (some .zero), .setLocalEcho false]).advance
      0 closed).1
    Network.isPairClosed 2 closed = true ∧ (Network.script 0 closed).deeds.toList = [] ∧
      (Network.script 0 later).deeds.toList =
        [.setTimeout (some .zero), .wrote [255, 251, 1]] := by
  decide +kernel

end RemoteConsole.Channel
