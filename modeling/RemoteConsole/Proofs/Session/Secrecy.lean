/-
Passwords are secret.  Two sessions whose users type the same but for the passwords, and
whose logins end alike, do the same towards the far end and are left the same.  And
whenever a session waits for a password it has had the far end hide what is typed, and has
sent nothing but the prompt since.
-/
import RemoteConsole.Proofs.Session.Hush

namespace RemoteConsole.Session

variable {ρ : Type}

/-! Courses that differ in passwords only. -/

/-- A deed without the password in it. -/
def Deed.masked : Deed → Deed
  | tried username _ accepted => tried username "" accepted
  | noted (.login i username _ accepted) => noted (.login i username "" accepted)
  | d => d

/-- What the far end learns of has no password in it. -/
theorem isSent_masked (ds : List Deed) :
    (ds.map Deed.masked).filter Deed.isSent = ds.filter Deed.isSent := by
  have hsent : ∀ d : Deed, d.masked.isSent = d.isSent ∧ (d.isSent = true → d.masked = d) := by
    intro d
    cases d with
    | noted n => cases n <;> simp [Deed.masked, Deed.isSent]
    | _ => simp [Deed.masked, Deed.isSent]
  induction ds with
  | nil => rfl
  | cons d ds ih =>
      rw [List.map_cons, List.filter_cons, List.filter_cons, (hsent d).1, ih]
      split
      next h => rw [(hsent d).2 h]
      next => rfl

/-- The results are the same, and so are the states and all but the passwords of the records. -/
structure Ran.Alike {α : Type} (r r' : Ran (Sitting ρ) Deed α) : Prop where
  result : r.result = r'.result
  state : r.state = r'.state
  deeds : r.deeds.map Deed.masked = r'.deeds.map Deed.masked

theorem Ran.Alike.refl {α : Type} (r : Ran (Sitting ρ) Deed α) : r.Alike r :=
  ⟨rfl, rfl, rfl⟩

theorem Ran.Alike.after {α : Type} {r r' : Ran (Sitting ρ) Deed α} (h : r.Alike r')
    {ds ds' : List Deed} (hds : ds.map Deed.masked = ds'.map Deed.masked) :
    Ran.Alike { r with deeds := ds ++ r.deeds } { r' with deeds := ds' ++ r'.deeds } :=
  ⟨h.result, h.state, by rw [List.map_append, List.map_append, hds, h.deeds]⟩

theorem Ran.Alike.bind {α β : Type} {x y : Course ρ α} {f g : α → Course ρ β} {s : Sitting ρ}
    (h : (x s).Alike (y s)) (hfg : ∀ a t, (f a t).Alike (g a t)) :
    ((x >>= f) s).Alike ((y >>= g) s) := by
  rw [Recorded.bind_run, Recorded.bind_run, h.result, h.state]
  exact (hfg _ _).after h.deeds

theorem Ran.Alike.seq {α β : Type} {x y : Work (Course ρ) α} {f g : α → Work (Course ρ) β}
    {s : Sitting ρ} (h : (x.run s).Alike (y.run s))
    (hfg : ∀ a t, ((f a).run t).Alike ((g a).run t)) :
    ((x >>= f).run s).Alike ((y >>= g).run s) := by
  rw [ExceptT.run_bind, ExceptT.run_bind]
  refine h.bind fun result t => ?_
  cases result with
  | ok a => exact hfg a t
  | error e => exact .refl _

theorem Ran.Alike.isSent {α : Type} {r r' : Ran (Sitting ρ) Deed α} (h : r.Alike r') :
    r.deeds.filter Deed.isSent = r'.deeds.filter Deed.isSent := by
  rw [← isSent_masked, h.deeds, isSent_masked]

/-- How logins were decided. -/
def verdicts (deeds : List Deed) : List Bool :=
  deeds.filterMap fun
    | .tried _ _ accepted => some accepted
    | _ => none

theorem verdicts_append (ds es : List Deed) : verdicts (ds ++ es) = verdicts ds ++ verdicts es :=
  List.filterMap_append

theorem verdicts_masked (ds : List Deed) : verdicts (ds.map Deed.masked) = verdicts ds := by
  rw [verdicts, List.filterMap_map]
  refine congrArg (List.filterMap · ds) (funext fun d => ?_)
  cases d with
  | noted n => cases n <;> rfl
  | _ => rfl

/-- What surrounds a session makes nothing of a password but the verdict on it. -/
structure Host.Discreet (base : Host (Around ρ)) : Prop where
  validate : ∀ username password password' s w,
    ((base.validate username password s).run w).1 =
        ((base.validate username password' s).run w).1 →
      ((base.validate username password s).run w).2 =
        ((base.validate username password' s).run w).2
  note : base.hooks.watched = true → ∀ username password password' accepted,
    base.note (.login base.id username password accepted) =
      base.note (.login base.id username password' accepted)

/-! A line that is taken for a password. -/

section

variable {base : Host (Around ρ)}

theorem settle_alike (hdiscreet : base.Discreet) (username password password' : String)
    (accepted : Bool) (s : Sitting ρ) :
    ((settle base.seated username password accepted).run s).Alike
      ((settle base.seated username password' accepted).run s) := by
  refine Ran.Alike.seq ?_ fun _ _ => .refl _
  by_cases hwatched : base.hooks.watched = true
  · have hnote := hdiscreet.note hwatched username password password' accepted
    have hwatch : ∀ n, base.seated.watch n = base.seated.note n := fun n => if_pos hwatched
    rw [hwatch, hwatch]
    refine ⟨rfl, ?_, rfl⟩
    change ((around (base.note (.login base.id username password accepted))) s).state =
      ((around (base.note (.login base.id username password' accepted))) s).state
    rw [hnote]
  · have hwatch : ∀ n, base.seated.watch n = pure () := fun n => if_neg hwatched
    rw [hwatch, hwatch]
    exact .refl _

/-- A session in its world, after a password was taken. -/
def Sitting.forget (s : Sitting ρ) : Sitting ρ :=
  { s with state := { s.state with username := "" } }

theorem password_run (i : Inner (Course ρ)) (line : String) (s : Sitting ρ) :
    (heed base.seated i .password line >>= fun _ => endTurn base.seated).run s =
      let username := s.state.username
      let verdict := (base.validate username line s.forget.state).run s.world
      let rest := (settle base.seated username line verdict.1 >>= fun _ =>
        endTurn base.seated).run ⟨s.forget.state, verdict.2⟩
      { rest with deeds := .tried username line verdict.1 :: rest.deeds } := by
  have hheed : (heed base.seated i .password line >>= fun _ => endTurn base.seated).run s =
      ((liftM (base.seated.validate s.state.username line) : Work (Course ρ) Bool) >>=
        fun accepted => settle base.seated s.state.username line accepted >>= fun _ =>
          endTurn base.seated).run s.forget := by
    rw [← bind_assoc]
    rfl
  rw [hheed]
  rfl

/-- With equal verdicts it makes no difference what the password was. -/
theorem password_alike (hdiscreet : base.Discreet) (i : Inner (Course ρ)) (s : Sitting ρ)
    (line line' : String)
    (hverdict : ((base.validate s.state.username line s.forget.state).run s.world).1 =
      ((base.validate s.state.username line' s.forget.state).run s.world).1) :
    ((heed base.seated i .password line >>= fun _ => endTurn base.seated).run s).Alike
      ((heed base.seated i .password line' >>= fun _ => endTurn base.seated).run s) := by
  have hworld := hdiscreet.validate _ _ _ _ _ hverdict
  rw [password_run, password_run]
  dsimp only
  rw [← hverdict, ← hworld]
  have hrest := (settle_alike hdiscreet s.state.username line line'
    ((base.validate s.state.username line s.forget.state).run s.world).1
    ⟨s.forget.state, ((base.validate s.state.username line s.forget.state).run s.world).2⟩).seq
      (fun _ _ => Ran.Alike.refl ((endTurn base.seated).run _))
  have hmasked : ∀ accepted, [Deed.tried s.state.username line accepted].map Deed.masked =
      [Deed.tried s.state.username line' accepted].map Deed.masked := fun _ => rfl
  exact hrest.after (hmasked _)

/-- Two lines taken for passwords: it takes a different verdict to tell them apart. -/
theorem takeLine_secret (hdiscreet : base.Discreet) (i : Inner (Course ρ)) {s : Sitting ρ}
    (hstage : s.state.stage = .password) (line line' : String) :
    let r := (takeLine base.seated i line).run s
    let r' := (takeLine base.seated i line').run s
    ∀ {later later'}, verdicts (r.deeds ++ later) = verdicts (r'.deeds ++ later') →
      r.Alike r' := by
  intro r r' later later' hverdicts
  obtain ⟨result, w, hnewline⟩ := sendBytes_run base (base.config.encoded "\n") s
  have hsend : (sendText base.seated "\n").run s = _ := hnewline
  have htake : ∀ line, (takeLine base.seated i line).run s =
      (sendText base.seated "\n" >>= fun _ => heed base.seated i .password line >>= fun _ =>
        endTurn base.seated : Work (Course ρ) Unit).run s := fun line => by
    rw [takeLine_run, answer, if_pos (Or.inl hstage), hstage]
  have hbind : ∀ line, (takeLine base.seated i line).run s = _ := fun line =>
    (htake line).trans (by rw [ExceptT.run_bind, Recorded.bind_run, hsend])
  cases result with
  | error e =>
      simp only [r, r', hbind]
      exact .refl _
  | ok _ =>
      simp only [r, r', hbind] at hverdicts ⊢
      have hverdict := (List.cons_eq_cons.mp hverdicts).1
      exact (password_alike hdiscreet i ⟨s.state, w⟩ line line' hverdict).after rfl

/-! Typing a password. -/

/-- What may be typed for a line: something, and no end of a line. -/
structure Secret where
  bytes : List UInt8
  ne_nil : bytes ≠ []
  inLine : ∀ b ∈ bytes, isLineEnd b = false

/-- What two users type: the same byte, or each a secret and the same end of the line. -/
inductive Piece where
  | key (b : UInt8)
  | secret (first second : Secret) (terminator : UInt8) (ends : isLineEnd terminator = true)

namespace Piece

def first : Piece → List UInt8
  | key b => [b]
  | secret first _ terminator _ => first.bytes ++ [terminator]

def second : Piece → List UInt8
  | key b => [b]
  | secret _ second terminator _ => second.bytes ++ [terminator]

end Piece

/-- Take a byte, and go on after a failure or not. -/
def take {m : Type → Type u} [Monad m] (h : Host m) (dogged : Bool) (b : UInt8) : Work m Unit :=
  if dogged then ExceptT.mk do
    let _ ← (press h b).run
    return .ok ()
  else press h b

/-- What a session begins with. -/
def opening {m : Type → Type u} [Monad m] (h : Host m) : Work m Unit := do
  adjustEcho h
  sendPrompt h

/-- A session with a user who types these bytes. -/
def sessionOn {m : Type → Type u} [Monad m] (h : Host m) (dogged : Bool) (bytes : List UInt8) :
    Work m Unit := do
  opening h
  forM bytes (take h dogged)

theorem take_run (dogged : Bool) (b : UInt8) (s : Sitting ρ) :
    (take base.seated dogged b).run s =
      let r := (press base.seated b).run s
      { r with result := if dogged then .ok () else r.result } := by
  cases dogged with
  | false => rfl
  | true =>
      have hrun : (take base.seated true b).run =
          ((press base.seated b).run >>= fun _ => pure (.ok ()) : Course ρ (Except Error Unit)) :=
        rfl
      rw [hrun, Recorded.bind_run, Recorded.pure_run, List.append_nil]
      rfl

theorem Ran.Alike.take {dogged : Bool} {b b' : UInt8} {s s' : Sitting ρ}
    (h : ((press base.seated b).run s).Alike ((press base.seated b').run s')) :
    ((take base.seated dogged b).run s).Alike ((take base.seated dogged b').run s') := by
  rw [take_run, take_run]
  refine ⟨?_, h.state, h.deeds⟩
  dsimp only
  rw [h.result]

variable (base) in
/-- A byte of a password line is taken in silence. -/
theorem take_silent (dogged : Bool) {b : UInt8} (hb : isLineEnd b = false) {s : Sitting ρ}
    (hstage : s.state.stage = .password) :
    ∃ typed, (take base.seated dogged b).run s =
      ⟨.ok (), { s with state := { s.state with typed, lineEnded := false } }, []⟩ := by
  have hkey : s.state.key base.config b = ((s.state.edit base.config b).1, none) :=
    if_neg (by rw [hb]; exact Bool.false_ne_true)
  have hshown : s.state.shown base.config b = .none := by
    simp [State.shown, State.showsTyping, hstage]
  have hedit : ∃ typed, (s.state.edit base.config b).1 =
      { s.state with typed, lineEnded := false } := by
    simp only [State.edit]
    split_ifs <;> exact ⟨_, rfl⟩
  obtain ⟨typed, hedit⟩ := hedit
  have hpress : (press base.seated b).run s =
      ⟨.ok (), { s with state := { s.state with typed, lineEnded := false } }, []⟩ := by
    rw [press, pressKey_run, hkey, hedit]
    exact if_neg fun h => h.2 hshown
  refine ⟨typed, ?_⟩
  rw [take_run, hpress]
  cases dogged <;> rfl

variable (base) in
/-- A password line up to its end is taken in silence. -/
theorem line_silent (dogged : Bool) {bytes : List UInt8} (hne : bytes ≠ [])
    (hline : ∀ b ∈ bytes, isLineEnd b = false) {s : Sitting ρ}
    (hstage : s.state.stage = .password) :
    ∃ typed, (forM bytes (take base.seated dogged)).run s =
      ⟨.ok (), { s with state := { s.state with typed, lineEnded := false } }, []⟩ := by
  induction bytes generalizing s with
  | nil => exact absurd rfl hne
  | cons b rest ih =>
      obtain ⟨hb, hrest⟩ := List.forall_mem_cons.mp hline
      obtain ⟨typed, hfirst⟩ := take_silent base dogged hb hstage
      rw [List.forM_cons, ExceptT.run_bind, Recorded.bind_run, hfirst]
      cases rest with
      | nil => exact ⟨typed, rfl⟩
      | cons b' rest =>
          obtain ⟨typed', hmore⟩ := ih (List.cons_ne_nil b' rest) hrest
            (s := { s with state := { s.state with typed, lineEnded := false } }) hstage
          exact ⟨typed', by dsimp only; rw [hmore]; rfl⟩

/-- A session in its world, with a line just ended. -/
def Sitting.closed (s : Sitting ρ) : Sitting ρ :=
  { s with state := { s.state with typed := .empty, lineEnded := true } }

variable (base) in
/-- A password line is taken when it ends, whatever was typed. -/
theorem secret_run (dogged : Bool) (secret : Secret) {terminator : UInt8}
    (hends : isLineEnd terminator = true) {s : Sitting ρ} (hstage : s.state.stage = .password) :
    ∃ line, (forM (secret.bytes ++ [terminator]) (take base.seated dogged)).run s =
      let r := (takeLine base.seated base.seated.itself line).run s.closed
      { r with result := if dogged then .ok () else r.result } := by
  obtain ⟨typed, hsilent⟩ := line_silent base dogged secret.ne_nil secret.inLine hstage
  let typing : State := { s.state with typed, lineEnded := false }
  have hkey : typing.key base.config terminator =
      ({ s.state with typed := .empty, lineEnded := true }, some typing.line) := if_pos hends
  have hpress : (press base.seated terminator).run { s with state := typing } =
      (takeLine base.seated base.seated.itself typing.line).run s.closed := by
    rw [press, pressKey_run, hkey]
    rfl
  have hlast : forM [terminator] (take base.seated dogged) =
      take base.seated dogged terminator := by simp
  refine ⟨typing.line, ?_⟩
  rw [List.forM_append, hlast, ExceptT.run_bind, Recorded.bind_run, hsilent]
  dsimp only
  rw [take_run, hpress]
  rfl

/-! Two users. -/

/-- A secret is typed where a password is asked for. -/
def Piece.IsPlaced (s : State) : Piece → Prop
  | key _ => True
  | secret _ _ _ _ => s.stage = .password

/-- Secrets are typed where passwords are asked for, as long as the session lasts. -/
def Placed (base : Host (Around ρ)) (dogged : Bool) : List Piece → Sitting ρ → Prop
  | [], _ => True
  | piece :: rest, s =>
      let r := (forM piece.first (take base.seated dogged)).run s
      piece.IsPlaced s.state ∧ (r.result = .ok () → Placed base dogged rest r.state)

instance (piece : Piece) (s : State) : Decidable (piece.IsPlaced s) :=
  match piece with
  | .key _ => .isTrue trivial
  | .secret _ _ _ _ => inferInstanceAs (Decidable (s.stage = .password))

instance Placed.decidable (base : Host (Around ρ)) (dogged : Bool) :
    (pieces : List Piece) → (s : Sitting ρ) → Decidable (Placed base dogged pieces s)
  | [], _ => .isTrue trivial
  | piece :: rest, s =>
      have := Placed.decidable base dogged rest
        ((forM piece.first (take base.seated dogged)).run s).state
      inferInstanceAs (Decidable (piece.IsPlaced s.state ∧
        (((forM piece.first (take base.seated dogged)).run s).result = .ok () →
          Placed base dogged rest ((forM piece.first (take base.seated dogged)).run s).state)))

theorem piece_alike (hdiscreet : base.Discreet) (dogged : Bool) {piece : Piece} {s : Sitting ρ}
    (hplaced : piece.IsPlaced s.state) :
    let r := (forM piece.first (take base.seated dogged)).run s
    let r' := (forM piece.second (take base.seated dogged)).run s
    ∀ {later later'}, verdicts (r.deeds ++ later) = verdicts (r'.deeds ++ later') →
      r.Alike r' := by
  intro r r' later later' hverdicts
  cases piece with
  | key b => exact .refl _
  | secret first second terminator hends =>
      obtain ⟨line, hrun⟩ := secret_run base dogged first hends hplaced
      obtain ⟨line', hrun'⟩ := secret_run base dogged second hends hplaced
      have hr : r = _ := hrun
      have hr' : r' = _ := hrun'
      rw [hr, hr'] at hverdicts ⊢
      have halike := takeLine_secret hdiscreet base.seated.itself
        (s := s.closed) hplaced line line' hverdicts
      refine ⟨?_, halike.state, halike.deeds⟩
      dsimp only
      rw [halike.result]

theorem pieces_alike (hdiscreet : base.Discreet) (dogged : Bool) {pieces : List Piece}
    {s : Sitting ρ} (hplaced : Placed base dogged pieces s) :
    let r := (forM (pieces.flatMap Piece.first) (take base.seated dogged)).run s
    let r' := (forM (pieces.flatMap Piece.second) (take base.seated dogged)).run s
    verdicts r.deeds = verdicts r'.deeds → r.Alike r' := by
  induction pieces generalizing s with
  | nil => exact fun _ => .refl _
  | cons piece rest ih =>
      obtain ⟨hpiece, hrest⟩ := hplaced
      simp only [List.flatMap_cons, List.forM_append, ExceptT.run_bind, Recorded.bind_run]
      intro hverdicts
      have halike := piece_alike hdiscreet dogged hpiece hverdicts
      rw [← halike.result, ← halike.state] at hverdicts ⊢
      cases hresult : ((forM piece.first (take base.seated dogged)).run s).result with
      | error e => exact Ran.Alike.after (.refl _) halike.deeds
      | ok _ =>
          have hsame : verdicts ((forM piece.first (take base.seated dogged)).run s).deeds =
              verdicts ((forM piece.second (take base.seated dogged)).run s).deeds := by
            rw [← verdicts_masked, halike.deeds, verdicts_masked]
          rw [hresult, verdicts_append, verdicts_append, hsame] at hverdicts
          exact (ih (hrest hresult) (List.append_cancel_left hverdicts)).after halike.deeds

theorem sessionOn_alike (hdiscreet : base.Discreet) (dogged : Bool) {pieces : List Piece}
    {s : Sitting ρ} (hplaced : Placed base dogged pieces ((opening base.seated).run s).state) :
    let r := (sessionOn base.seated dogged (pieces.flatMap Piece.first)).run s
    let r' := (sessionOn base.seated dogged (pieces.flatMap Piece.second)).run s
    verdicts r.deeds = verdicts r'.deeds → r.Alike r' := by
  dsimp only
  rw [sessionOn, sessionOn, ExceptT.run_bind, ExceptT.run_bind, Recorded.bind_run,
    Recorded.bind_run]
  cases hresult : ((opening base.seated).run s).result with
  | error e => exact fun _ => .refl _
  | ok _ =>
      intro hverdicts
      rw [verdicts_append, verdicts_append] at hverdicts
      exact (pieces_alike hdiscreet dogged hplaced (List.append_cancel_left hverdicts)).after rfl

end

/-- Nothing of a password passes to the far end, nor stays with the session: two users who
type the same but for the passwords, and whose logins end alike, see the same and leave the
same behind.  And whenever a session reads while it waits for a password, the far end was
told to hide what is typed, and nothing but the prompt was sent since; the prompt was, unless
the channel was found closed. -/
theorem passwords_secret (base : Host (Around ρ)) (hdiscreet : base.Discreet) :
    (∀ (dogged : Bool) (pieces : List Piece) (s : Sitting ρ),
      let one := (sessionOn base.seated dogged (pieces.flatMap Piece.first)).run s
      let two := (sessionOn base.seated dogged (pieces.flatMap Piece.second)).run s
      Placed base dogged pieces ((opening base.seated).run s).state →
        verdicts one.deeds = verdicts two.deeds →
          one.deeds.filter Deed.isSent = two.deeds.filter Deed.isSent ∧ one.Alike two) ∧
      ∀ (limit : Nat) (s : Sitting ρ) (earlier later : List Deed)
        (result : Except Channel.Error (List UInt8)),
        ((converse base.seated limit).run s).deeds =
            earlier ++ .read .password result :: later →
          (SentSince earlier [base.config.passwordBytes] ∨ SentSince earlier []) ∧
            (base.Honest → ∀ bytes, result = .ok bytes →
              SentSince earlier [base.config.passwordBytes]) := by
  refine ⟨?_, fun limit s earlier later result hread => ?_⟩
  · intro dogged pieces s one two hplaced hverdicts
    have halike := sessionOn_alike hdiscreet dogged hplaced hverdicts
    exact ⟨halike.isSent, halike⟩
  · exact watchful_converse limit s earlier result later hread

/-! Two users at a desk. -/

theorem Desk.discreet_around {d : Desk} (hunwatched : d.hooks.watched = false) :
    d.around.Discreet where
  validate _ _ _ _ _ _ := rfl
  note hwatched := by
    change d.hooks.watched = true at hwatched
    rw [hunwatched] at hwatched
    cases hwatched

/-- A desk where a user name and a password are asked for, and logins are not noted. -/
def unwatched : Desk :=
  .initial ⟨1⟩ { username := "ann", password := "pw" } { watched := false } none {}

/-- The text of a secret. -/
def Secret.ofText (text : String)
    (h : Text.encode text ≠ [] ∧ ∀ b ∈ Text.encode text, isLineEnd b = false) : Secret :=
  ⟨Text.encode text, h.1, h.2⟩

/-- One user mistypes the password and then types it; the other types more the first time,
and corrects the password the second time. -/
def twoUsers : List Piece :=
  (Text.encode "ann\r").map .key ++
    [.secret (.ofText "no" (by decide +kernel)) (.ofText "not this" (by decide +kernel)) 13 rfl] ++
    (Text.encode "ann\r").map .key ++
    [.secret (.ofText "pw" (by decide +kernel)) (.ofText "pq\x08w" (by decide +kernel)) 13 rfl]

theorem passwords_secret_corrected :
    Placed unwatched.around true twoUsers
        ((opening unwatched.around.seated).run
          ⟨.initial unwatched.around.config, unwatched⟩).state ∧
      verdicts ((sessionOn unwatched.around.seated true (twoUsers.flatMap Piece.first)).run
        ⟨.initial unwatched.around.config, unwatched⟩).deeds = [false, true] ∧
      ((sessionOn unwatched.around.seated true (twoUsers.flatMap Piece.first)).run
          ⟨.initial unwatched.around.config, unwatched⟩).deeds.filter Deed.isSent =
        ((sessionOn unwatched.around.seated true (twoUsers.flatMap Piece.second)).run
          ⟨.initial unwatched.around.config, unwatched⟩).deeds.filter Deed.isSent := by
  have hplaced : Placed unwatched.around true twoUsers
      ((opening unwatched.around.seated).run
        ⟨.initial unwatched.around.config, unwatched⟩).state := by decide +kernel
  have hfirst : verdicts ((sessionOn unwatched.around.seated true
      (twoUsers.flatMap Piece.first)).run
        ⟨.initial unwatched.around.config, unwatched⟩).deeds = [false, true] := by decide +kernel
  have hsecond : verdicts ((sessionOn unwatched.around.seated true
      (twoUsers.flatMap Piece.second)).run
        ⟨.initial unwatched.around.config, unwatched⟩).deeds = [false, true] := by decide +kernel
  have hsecret := (passwords_secret unwatched.around (Desk.discreet_around rfl)).1 true twoUsers
    ⟨.initial unwatched.around.config, unwatched⟩ hplaced (hfirst.trans hsecond.symm)
  exact ⟨hplaced, hfirst, hsecret.1⟩

end RemoteConsole.Session
