/-
Waiting for a password.  Whenever a session reads while it waits for one, it has told the
far end to hide what is typed, and has sent nothing since but the prompt.
-/
import RemoteConsole.Proofs.Session.Login

namespace RemoteConsole.Session

variable {ρ : Type}

/-- Whether the far end learns of a deed. -/
def Deed.isSent : Deed → Bool
  | wrote _ | setEcho _ => true
  | _ => false

/-- All that was sent since the far end was told to hide what is typed. -/
def SentSince (ds : List Deed) (sent : List (List UInt8)) : Prop :=
  ∃ earlier later, ds = earlier ++ .setEcho false :: later ∧
    later.filter Deed.isSent = sent.map .wrote

theorem SentSince.append {ds : List Deed} {sent : List (List UInt8)} (h : SentSince ds sent)
    {es : List Deed} (hes : es.filter Deed.isSent = []) : SentSince (ds ++ es) sent := by
  obtain ⟨earlier, later, rfl, hsent⟩ := h
  exact ⟨earlier, later ++ es, by simp, by rw [List.filter_append, hsent, hes, List.append_nil]⟩

/-- A channel that was found closed delivers nothing. -/
def Host.Honest (base : Host (Around ρ)) : Prop :=
  ∀ s s' w count, ((base.channel.isOpen s).run w).1 = false →
    ∃ e, ((base.channel.read count s').run ((base.channel.isOpen s).run w).2).1 = .error e

/-- The channel was just found closed. -/
def Shut (base : Host (Around ρ)) (w : ρ) : Prop :=
  ∃ s w', ((base.channel.isOpen s).run w').1 = false ∧ ((base.channel.isOpen s).run w').2 = w

/-- The prompt of a password as it is sent. -/
def Config.passwordBytes (c : Config) : List UInt8 :=
  c.encoded c.passwordPrompt

/-- What is right when a session reads while it waits for a password. -/
def Hushed (base : Host (Around ρ)) (ds : List Deed)
    (result : Except Channel.Error (List UInt8)) : Prop :=
  (SentSince ds [base.config.passwordBytes] ∨ SentSince ds []) ∧
    (base.Honest → ∀ bytes, result = .ok bytes → SentSince ds [base.config.passwordBytes])

/-- All is right whenever a session reads while it waits for a password. -/
def Watchful (base : Host (Around ρ)) (ds : List Deed) : Prop :=
  ∀ earlier result later, ds = earlier ++ .read .password result :: later →
    Hushed base earlier result

/-- Whether a deed is a read. -/
def Deed.isRead : Deed → Bool
  | read _ _ => true
  | _ => false

section

variable {base : Host (Around ρ)} {ds es : List Deed}

theorem Watchful.append (hds : Watchful base ds) (hes : ∀ d ∈ es, d.isRead = false) :
    Watchful base (ds ++ es) := by
  intro earlier result later heq
  rcases List.append_eq_append_iff.mp heq with ⟨more, hearlier, hrest⟩ | ⟨more, hds', hrest⟩
  · have hmem : Deed.read .password result ∈ es := by
      rw [hrest]
      simp
    exact absurd (hes _ hmem) (by simp [Deed.isRead])
  · cases more with
    | nil =>
        have hmem : Deed.read .password result ∈ es := by
          have : es = Deed.read .password result :: later := by simpa using hrest.symm
          rw [this]
          simp
        exact absurd (hes _ hmem) (by simp [Deed.isRead])
    | cons d more =>
        obtain ⟨rfl, -⟩ := List.cons_eq_cons.mp hrest
        exact hds earlier result more hds'

theorem Watchful.read (hds : Watchful base ds) {stage : Stage}
    {result : Except Channel.Error (List UInt8)}
    (hread : stage = .password → Hushed base ds result) :
    Watchful base (ds ++ [.read stage result]) := by
  intro earlier result' later heq
  rcases List.eq_nil_or_concat later with rfl | ⟨more, d, rfl⟩
  · obtain ⟨rfl, hlast⟩ := List.append_inj' heq rfl
    simp only [List.cons.injEq, Deed.read.injEq, and_true] at hlast
    obtain ⟨rfl, rfl⟩ := hlast
    exact hread rfl
  · have hds' : ds = earlier ++ .read .password result' :: more := by
      have hlast : ds ++ [Deed.read stage result] =
          (earlier ++ .read .password result' :: more) ++ [d] := by simpa using heq
      exact (List.append_inj' hlast rfl).1
    exact hds earlier result' more hds'

end

/-! Nothing is read while a byte is answered. -/

/-- Work that reads nothing. -/
def Unread (α : Type) (x : Course ρ α) : Prop :=
  ∀ s, ∀ d ∈ (x s).deeds, d.isRead = false

theorem unread_joins : Joins (Unread (ρ := ρ)) where
  pure _ _ _ hd := by cases hd
  bind hx hf s := List.forall_mem_append.mpr ⟨hx s, hf _ _⟩

theorem unread_around {α : Type} (work : Around ρ α) : Unread α (around work) :=
  fun _ _ hd => by cases hd

theorem unread_enter {d : Deed} (hd : d.isRead = false) :
    Unread (ρ := ρ) Unit (Recorded.enter d) :=
  fun _ => List.forall_mem_singleton.mpr hd

section

variable (base : Host (Around ρ))

theorem keeps_unread : base.seated.Keeps (fun _ => True) Unread := by
  refine unread_joins.keeps_seated base unread_around (fun d hd => unread_enter ?_) ?_ ?_
  · cases d with
    | read stage result => cases hd
    | _ => rfl
  · exact fun hf s => hf s.state trivial s
  · exact fun _ _ _ _ hd => by cases hd

theorem admits_unread : base.seated.Admits Unread where
  validate _ _ := unread_joins.bind (unread_around _) fun _ =>
    unread_joins.bind (unread_enter rfl) fun _ => unread_joins.pure _
  setStage _ _ _ := List.forall_mem_singleton.mpr rfl

theorem unread_takeLine (i : Inner (Course ρ)) {s : Sitting ρ}
    (hstage : s.state.stage.isLogin = true) (line : String) :
    ∀ d ∈ ((takeLine base.seated i line).run s).deeds, d.isRead = false := by
  have hok := keeps_unread base
  rw [takeLine_run]
  exact hok.answer (hok.heed (admits_unread base) i hstage line) s

end

/-! A line before a login ends with the far end told what to do, and asked for the next. -/

/-- Work that, if it succeeds, ends by telling the far end whether to show typing. -/
def Settles (x : Work (Course ρ) Unit) : Prop :=
  ∀ s, (x.run s).result = .ok () →
    ∃ es, (x.run s).deeds = es ++ [.setEcho (x.run s).state.state.wantsLocalEcho]

theorem Settles.seq {α : Type} {x : Work (Course ρ) α} {f : α → Work (Course ρ) Unit}
    (hf : ∀ a, Settles (f a)) : Settles (x >>= f) := by
  intro s
  rw [ExceptT.run_bind, Recorded.bind_run]
  cases hresult : (x.run s).result with
  | error e => exact fun h => by cases h
  | ok a =>
      intro hok
      obtain ⟨es, hes⟩ := hf a (x.run s).state hok
      refine ⟨(x.run s).deeds ++ es, ?_⟩
      dsimp only
      rw [hes, List.append_assoc]

section

variable (base : Host (Around ρ))

theorem settles_adjustEcho : Settles (adjustEcho base.seated) := by
  intro s _
  obtain ⟨result, w, hrun⟩ := adjustEcho_run base s
  exact ⟨[], by rw [hrun]; rfl⟩

theorem settles_login (username password : String) :
    Settles (login base.seated username password) := by
  refine Settles.seq fun accepted => Settles.seq fun _ => ?_
  dsimp only
  split
  · exact Settles.seq fun _ => Settles.seq fun _ => Settles.seq fun _ => settles_adjustEcho base
  · exact Settles.seq fun _ => Settles.seq fun _ => settles_adjustEcho base

theorem settles_heed (i : Inner (Course ρ)) {stage : Stage} (hstage : stage.isLogin = true)
    (line : String) : Settles (heed base.seated i stage line) := by
  cases stage with
  | username =>
      unfold heed
      dsimp only
      split
      · exact settles_login base _ _
      · exact Settles.seq fun _ => Settles.seq fun _ => settles_adjustEcho base
  | password => exact Settles.seq fun _ => Settles.seq fun _ => settles_login base _ _
  | commandEntry => cases hstage
  | processing => cases hstage

theorem endTurn_run (s : Sitting ρ) :
    ∃ result w opened, (endTurn base.seated).run s =
      ⟨result, ⟨s.state, w⟩, .looked opened ::
        if opened then [.wrote (base.config.encoded (promptOf base.config s.state.stage))]
          else []⟩ ∧
      (opened = false → Shut base w) := by
  have hlook : (endTurn base.seated).run s =
      let seen := (base.channel.isOpen s.state).run s.world
      let rest := (if seen.1 = true then sendPrompt base.seated else pure () :
        Work (Course ρ) Unit).run ⟨s.state, seen.2⟩
      { rest with deeds := .looked seen.1 :: rest.deeds } := rfl
  rw [hlook]
  rcases hseen : (base.channel.isOpen s.state).run s.world with ⟨_ | _, w⟩
  · exact ⟨_, w, false, rfl, fun _ => ⟨s.state, s.world, by rw [hseen], by rw [hseen]⟩⟩
  · obtain ⟨result, w', hprompt⟩ := sendBytes_run base
      (base.config.encoded (promptOf base.config s.state.stage)) ⟨s.state, w⟩
    have hprompt : (sendPrompt base.seated).run ⟨s.state, w⟩ = _ := hprompt
    refine ⟨result, w', true, ?_, fun h => by cases h⟩
    dsimp only
    rw [if_pos rfl, hprompt]
    rfl

/-- What is left of a line that was answered before a login. -/
def Asks (base : Host (Around ρ)) (r : Ran (Sitting ρ) Deed (Except Error Unit)) : Prop :=
  r.result = .ok () → ∃ es opened,
    r.deeds = es ++ .setEcho r.state.state.wantsLocalEcho :: .looked opened ::
        (if opened then [.wrote (base.config.encoded (promptOf base.config r.state.state.stage))]
          else []) ∧
      (opened = false → Shut base r.state.world)

variable {base}

theorem Asks.seq {α : Type} {x : Work (Course ρ) α} {f : α → Work (Course ρ) Unit} {s : Sitting ρ}
    (hf : ∀ a t, Asks base ((f a).run t)) : Asks base ((x >>= f).run s) := by
  rw [ExceptT.run_bind, Recorded.bind_run]
  cases hresult : (x.run s).result with
  | error e => exact fun h => by cases h
  | ok a =>
      intro hok
      obtain ⟨es, opened, hdeeds, hshut⟩ := hf a (x.run s).state hok
      refine ⟨(x.run s).deeds ++ es, opened, ?_, hshut⟩
      dsimp only
      rw [hdeeds, List.append_assoc]

theorem Asks.turn {x : Work (Course ρ) Unit} (hx : Settles x) (s : Sitting ρ) :
    Asks base ((x >>= fun _ => endTurn base.seated).run s) := by
  rw [ExceptT.run_bind, Recorded.bind_run]
  cases hresult : (x.run s).result with
  | error e => exact fun h => by cases h
  | ok a =>
      intro _
      obtain ⟨es, hes⟩ := hx s hresult
      obtain ⟨result, w, opened, hturn, hshut⟩ := endTurn_run base (x.run s).state
      dsimp only
      rw [hturn, hes]
      exact ⟨es, opened, List.append_assoc _ _ _, hshut⟩

theorem asks_takeLine (i : Inner (Course ρ)) {s : Sitting ρ}
    (hstage : s.state.stage.isLogin = true) (line : String) :
    Asks base ((takeLine base.seated i line).run s) := by
  have hturn : ∀ t, Asks base ((heed base.seated i s.state.stage line >>= fun _ =>
      endTurn base.seated).run t) := Asks.turn (settles_heed base i hstage line)
  rw [takeLine_run, answer]
  split
  · exact Asks.seq fun _ => hturn
  · exact hturn s

/-! A whole session. -/

/-- Between two bytes, while the session waits for a password. -/
def Waits (base : Host (Around ρ)) (ds : List Deed) (s : Sitting ρ) : Prop :=
  s.state.stage = .password →
    SentSince ds [base.config.passwordBytes] ∨
      SentSince ds [] ∧ (base.Honest → Shut base s.world)

theorem Asks.waits {r : Ran (Sitting ρ) Deed (Except Error Unit)} (h : Asks base r)
    (hok : r.result = .ok ()) (ds : List Deed) : Waits base (ds ++ r.deeds) r.state := by
  intro hstage
  obtain ⟨es, opened, hdeeds, hshut⟩ := h hok
  have hquiet : r.state.state.wantsLocalEcho = false := by
    simp [State.wantsLocalEcho, hstage]
  rw [hdeeds, hquiet, hstage, ← List.append_assoc]
  cases opened with
  | true => exact Or.inl ⟨ds ++ es, _, rfl, rfl⟩
  | false => exact Or.inr ⟨⟨ds ++ es, _, rfl, rfl⟩, fun _ => hshut rfl⟩

/-- A byte that was read while a password is waited for. -/
theorem Waits.press {ds : List Deed} {s : Sitting ρ} (h : Waits base ds s) (b : UInt8) :
    let r := (press base.seated b).run s
    (∀ d ∈ r.deeds, d.isRead = false) ∧
      (r.result = .ok () → Waits base (ds ++ r.deeds) r.state) := by
  cases hlogin : s.state.stage.isLogin with
  | false =>
      obtain ⟨hstage, -, hafter⟩ := staysIn_press base b s hlogin
      refine ⟨fun d hd => ?_, fun _ hpassword => ?_⟩
      · cases d <;> first | rfl | exact (hafter _ hd).elim
      · rw [hpassword] at hstage
        cases hstage
  | true =>
      have hkept := s.state.stage_key base.config b
      rw [Session.press, pressKey_run]
      rcases hline : (s.state.key base.config b).2 with _ | line
      · by_cases hshown : isLineEnd b = false ∧ s.state.shown base.config b ≠ .none
        · obtain ⟨result, w, hrun⟩ := sendBytes_run base (s.state.shown base.config b).bytes
            ⟨(s.state.key base.config b).1, s.world⟩
          simp only [if_pos hshown, hrun]
          refine ⟨by simp [Deed.isRead], fun _ hpassword => ?_⟩
          have hhidden : s.state.shown base.config b = .none := by
            simp [State.shown, State.showsTyping, ← hkept.symm.trans hpassword]
          exact absurd hhidden hshown.2
        · simp only [if_neg hshown]
          refine ⟨by simp, fun _ hpassword => ?_⟩
          rw [List.append_nil]
          exact h (hkept.symm.trans hpassword)
      · have hlogin' : (s.state.key base.config b).1.stage.isLogin = true := by rw [hkept, hlogin]
        exact ⟨unread_takeLine base _ hlogin' line,
          fun hok => (asks_takeLine _ hlogin' line).waits hok ds⟩

theorem serveByte_run_error {s : Sitting ρ} {e : Channel.Error} {w : ρ}
    (hread : (base.channel.read 1 s.state).run s.world = (.error e, w)) :
    (serveByte base.seated).run s =
      ⟨.error (.channel e), ⟨s.state, w⟩, [.read s.state.stage (.error e)]⟩ := by
  have hcall : base.seated.channel.read 1 s =
      ⟨((base.channel.read 1 s.state).run s.world).1,
        ⟨s.state, ((base.channel.read 1 s.state).run s.world).2⟩,
        [.read s.state.stage ((base.channel.read 1 s.state).run s.world).1]⟩ := rfl
  rw [serveByte, ExceptT.run_bind, ExceptT.run_liftM, bind_map_left, Recorded.bind_run, hcall,
    hread]
  rfl

theorem serveByte_run_ok {s : Sitting ρ} {bytes : List UInt8} {w : ρ}
    (hread : (base.channel.read 1 s.state).run s.world = (.ok bytes, w)) :
    (serveByte base.seated).run s =
      let r := (press base.seated (bytes.headD 0)).run ⟨s.state, w⟩
      { r with deeds := .read s.state.stage (.ok bytes) :: r.deeds } := by
  have hcall : base.seated.channel.read 1 s =
      ⟨((base.channel.read 1 s.state).run s.world).1,
        ⟨s.state, ((base.channel.read 1 s.state).run s.world).2⟩,
        [.read s.state.stage ((base.channel.read 1 s.state).run s.world).1]⟩ := rfl
  rw [serveByte, ExceptT.run_bind, ExceptT.run_liftM, bind_map_left, Recorded.bind_run, hcall,
    hread]
  rfl

/-- A read in the midst of waiting for a password. -/
theorem Waits.hushed {ds : List Deed} {s : Sitting ρ} (h : Waits base ds s)
    (hstage : s.state.stage = .password) :
    Hushed base ds ((base.channel.read 1 s.state).run s.world).1 := by
  rcases h hstage with hprompt | ⟨hnothing, hshut⟩
  · exact ⟨Or.inl hprompt, fun _ _ _ => hprompt⟩
  · refine ⟨Or.inr hnothing, fun hhonest bytes hok => ?_⟩
    obtain ⟨s', w', hclosed, hworld⟩ := hshut hhonest
    obtain ⟨e, hfails⟩ := hhonest s' s.state w' 1 hclosed
    rw [hworld, hok] at hfails
    cases hfails

/-- Nothing is sent by reading. -/
theorem Waits.read {ds : List Deed} {s : Sitting ρ} (h : Waits base ds s)
    {bytes : List UInt8} {w : ρ}
    (hread : (base.channel.read 1 s.state).run s.world = (.ok bytes, w)) :
    Waits base (ds ++ [.read s.state.stage (.ok bytes)]) ⟨s.state, w⟩ := by
  intro hstage
  have hhushed := h.hushed hstage
  rw [hread] at hhushed
  obtain ⟨hsent, hprompt⟩ := hhushed
  by_cases hhonest : base.Honest
  · exact Or.inl ((hprompt hhonest bytes rfl).append rfl)
  · exact hsent.imp (·.append rfl) fun h => ⟨h.append rfl, fun h => absurd h hhonest⟩

/-- Whatever is read, all is right as long as the session reads. -/
theorem watchful_serveBytes (limit : Nat) {ds : List Deed} {s : Sitting ρ}
    (hds : Watchful base ds) (hwaits : Waits base ds s) :
    Watchful base (ds ++ ((serveBytes base.seated limit).run s).deeds) := by
  induction limit generalizing ds s with
  | zero => rwa [show ((serveBytes base.seated 0).run s).deeds = [] from rfl, List.append_nil]
  | succ limit ih =>
      have hnow := hds.read fun hstage => hwaits.hushed hstage
      rw [serveBytes, ExceptT.run_bind, Recorded.bind_run]
      rcases hread : (base.channel.read 1 s.state).run s.world with ⟨e | bytes, w⟩
      · rw [hread] at hnow
        rw [serveByte_run_error hread]
        exact hnow
      · rw [hread] at hnow
        obtain ⟨hunread, hafter⟩ := (hwaits.read hread).press (bytes.headD 0)
        have hpressed := hnow.append hunread
        rw [serveByte_run_ok hread]
        dsimp only
        cases hresult : ((press base.seated (bytes.headD 0)).run ⟨s.state, w⟩).result with
        | error e =>
            rw [List.append_assoc] at hpressed
            simpa [Recorded.pure_run] using hpressed
        | ok _ =>
            have hmore := ih hpressed (hafter hresult)
            simpa using hmore

theorem watchful_nil : Watchful base [] := by
  intro earlier result later h
  simp at h

/-- A session from its first prompt. -/
theorem watchful_converse (limit : Nat) (s : Sitting ρ) :
    Watchful base ((converse base.seated limit).run s).deeds := by
  obtain ⟨result, w, hadjust⟩ := adjustEcho_run base s
  obtain ⟨result', w', hprompt⟩ := sendBytes_run base
    (base.config.encoded (promptOf base.config s.state.stage)) ⟨s.state, w⟩
  have hprompt : (sendPrompt base.seated).run ⟨s.state, w⟩ = _ := hprompt
  let opening : List Deed := [.setEcho s.state.wantsLocalEcho,
    .wrote (base.config.encoded (promptOf base.config s.state.stage))]
  have hopening : Watchful base opening := watchful_nil.append (by simp [Deed.isRead])
  have hwaits : Waits base opening ⟨s.state, w'⟩ := by
    intro (hstage : s.state.stage = .password)
    have hquiet : s.state.wantsLocalEcho = false := by simp [State.wantsLocalEcho, hstage]
    simp only [opening, hquiet, hstage]
    exact Or.inl ⟨[], _, rfl, rfl⟩
  rw [converse, ExceptT.run_bind, Recorded.bind_run, hadjust]
  cases result with
  | error e => exact watchful_nil.append (by simp [Deed.isRead, Recorded.pure_run])
  | ok _ =>
      dsimp only
      rw [ExceptT.run_bind, Recorded.bind_run, hprompt]
      cases result' with
      | error e => exact hopening
      | ok _ => exact watchful_serveBytes limit hopening hwaits

end

end RemoteConsole.Session
