/-
The longest command that tokens begin with.  The search passes over prefixes that name no
command, so that a command is found whether or not its first words are one too; and what it
finds depends on which commands are known, not on how they came to be.
-/
import RemoteConsole.Proofs.Session.Dictionary

namespace RemoteConsole.Session

variable {H : Type}

/-- No name is known that more than `past` of the first tokens make, joined by single spaces. -/
def NoneBeyond (knows : String → Entry H → Prop) (tokens : List String) (past : Nat) : Prop :=
  ∀ k, past < k → k ≤ tokens.length → ∀ entry, ¬ knows (" ".intercalate (tokens.take k)) entry

/-- The first tokens, more than `past` of them, make a name that is known, and no more of them
do. -/
structure IsLongest (knows : String → Entry H → Prop) (tokens : List String) (past : Nat)
    (m : Match H) : Prop where
  lt_count : past < m.count
  count_le : m.count ≤ tokens.length
  name_eq : m.name = " ".intercalate (tokens.take m.count)
  known : knows m.name m.entry
  unknown : NoneBeyond knows tokens m.count

section

variable {knows : String → Entry H → Prop} {tokens : List String} {past : Nat} {m m' : Match H}

theorem IsLongest.of_le {past' : Nat} (hle : past ≤ past')
    (hm : IsLongest knows tokens past' m) : IsLongest knows tokens past m :=
  { hm with lt_count := Nat.lt_of_le_of_lt hle hm.lt_count }

theorem IsLongest.not_noneBeyond (hm : IsLongest knows tokens past m) :
    ¬ NoneBeyond knows tokens past := by
  intro hnone
  refine hnone m.count hm.lt_count hm.count_le m.entry ?_
  rw [← hm.name_eq]
  exact hm.known

theorem IsLongest.count_le_count (hm : IsLongest knows tokens past m)
    (hm' : IsLongest knows tokens past m') : m'.count ≤ m.count := by
  by_contra hlt
  have hbeyond : IsLongest knows tokens m.count m' :=
    { hm' with lt_count := Nat.lt_of_not_le hlt }
  exact hbeyond.not_noneBeyond hm.unknown

/-- There is just one longest match, if a name is known for one entry only. -/
theorem IsLongest.unique (hknows : ∀ name e e', knows name e → knows name e' → e = e')
    (hm : IsLongest knows tokens past m) (hm' : IsLongest knows tokens past m') : m = m' := by
  have hcount : m.count = m'.count :=
    Nat.le_antisymm (hm'.count_le_count hm) (hm.count_le_count hm')
  have hname : m.name = m'.name := by rw [hm.name_eq, hm'.name_eq, hcount]
  have hentry : m.entry = m'.entry := hknows m.name _ _ hm.known (hname ▸ hm'.known)
  cases m
  cases m'
  cases hcount
  cases hname
  cases hentry
  rfl

end

namespace Dictionary

/-- A text is the normal spelling of a command. -/
def Knows (d : Dictionary H) (name : String) (entry : Entry H) : Prop :=
  ∃ n : CommandName, n.spelling = name ∧ d.find n = some entry

theorem mem_names_iff_exists {d : Dictionary H} {n : CommandName} :
    n ∈ d.names ↔ ∃ entry, d.find n = some entry := by
  rw [d.mem_names, Option.isSome_iff_exists]

/-- Tokens begin with the words of a command, and with those of no command of more words. -/
structure BeginsWith (d : Dictionary H) (tokens : List String) (n : CommandName) : Prop where
  known : n ∈ d.names
  begins : n.words <+: tokens
  longest : ∀ n' ∈ d.names, n'.words <+: tokens → n'.words.length ≤ n.words.length

end Dictionary

/-! The search. -/

namespace Registry

/-- A name is that of an entry. -/
def Knows (r : Registry H) (name : String) (entry : Entry H) : Prop :=
  r.get? name = some entry

/-- What is found among further tokens is the longest command among them, or what was found
before if there is none. -/
theorem longestFrom_cases (r : Registry H) (found : Option (Match H)) (done rest : List String) :
    (∃ m, r.longestFrom found done.length (" ".intercalate done) rest = some m ∧
        IsLongest r.Knows (done ++ rest) done.length m) ∨
      r.longestFrom found done.length (" ".intercalate done) rest = found ∧
        NoneBeyond r.Knows (done ++ rest) done.length := by
  induction rest generalizing found done with
  | nil =>
      refine Or.inr ⟨rfl, fun k hlt hle => ?_⟩
      rw [List.append_nil] at hle
      omega
  | cons token rest ih =>
      let passed := done ++ [token]
      have hall : done ++ token :: rest = passed ++ rest := by simp [passed]
      have hlength : passed.length = done.length + 1 := by simp [passed]
      have htake : (passed ++ rest).take (done.length + 1) = passed := by
        rw [← hlength, List.take_left]
      -- The name under way is that of the tokens passed.
      have hname : (if done.length = 0 then token else " ".intercalate done ++ " " ++ token) =
          " ".intercalate passed := by
        split
        next hzero =>
          obtain rfl : done = [] := List.length_eq_zero_iff.mp hzero
          rfl
        next hne =>
          have hdone : done ≠ [] := fun hnil => hne (by rw [hnil]; rfl)
          rw [String.intercalate_append_of_ne_nil hdone (List.cons_ne_nil _ _),
            String.intercalate_singleton]
      rw [longestFrom, hname, hall]
      cases hget : r.get? (" ".intercalate passed) with
      | some entry =>
          let m : Match H := ⟨done.length + 1, " ".intercalate passed, entry⟩
          rcases hlength ▸ ih (some m) passed with ⟨m', hfound, hm'⟩ | ⟨hfound, hnone⟩
          · exact Or.inl ⟨m', hfound, hm'.of_le (Nat.le_succ _)⟩
          · refine Or.inl ⟨m, hfound, Nat.lt_succ_self _, ?_, ?_, hget, hnone⟩
            · rw [List.length_append, hlength]
              exact Nat.le_add_right _ _
            · rw [htake]
      | none =>
          rcases hlength ▸ ih found passed with ⟨m, hfound, hm⟩ | ⟨hfound, hnone⟩
          · exact Or.inl ⟨m, hfound, hm.of_le (Nat.le_succ _)⟩
          · refine Or.inr ⟨hfound, fun k hlt hle entry => ?_⟩
            rcases Nat.lt_or_eq_of_le hlt with hlater | rfl
            · exact hnone k hlater hle entry
            · rw [htake, Knows, hget]
              exact Option.some_ne_none entry ∘ Eq.symm

variable {r : Registry H} {tokens : List String}

theorem longest_cases (r : Registry H) (tokens : List String) :
    (∃ m, r.longest tokens = some m ∧ IsLongest r.Knows tokens 0 m) ∨
      r.longest tokens = none ∧ NoneBeyond r.Knows tokens 0 :=
  r.longestFrom_cases none [] tokens

theorem longest_eq_some_iff {m : Match H} :
    r.longest tokens = some m ↔ IsLongest r.Knows tokens 0 m := by
  have hknows : ∀ name e e', r.Knows name e → r.Knows name e' → e = e' :=
    fun _ _ _ h h' => Option.some_inj.mp (h.symm.trans h')
  rcases r.longest_cases tokens with ⟨m', hfound, hm'⟩ | ⟨hfound, hnone⟩
  · rw [hfound, Option.some_inj]
    exact ⟨fun h => h ▸ hm', fun hm => hm'.unique hknows hm⟩
  · rw [hfound]
    exact ⟨nofun, fun hm => absurd hnone hm.not_noneBeyond⟩

theorem longest_eq_none_iff : r.longest tokens = none ↔ NoneBeyond r.Knows tokens 0 := by
  rcases r.longest_cases tokens with ⟨m, hfound, hm⟩ | ⟨hfound, hnone⟩
  · rw [hfound]
    exact ⟨nofun, fun hnone => absurd hnone hm.not_noneBeyond⟩
  · exact ⟨fun _ => hnone, fun _ => hfound⟩

/-! The registry as a dictionary. -/

variable {d : Dictionary H}

theorem Agrees.knows_eq (h : r.Agrees d) : r.Knows = d.Knows := by
  funext name entry
  rw [Knows, get?, h.increasing.lookup_eq_some_iff, h.mem_iff, Dictionary.Knows]

end Registry

/-! Tokens that are words. -/

section

variable {d : Dictionary H} {tokens : List String} (hwords : ∀ t ∈ tokens, Text.IsWord t)

include hwords

/-- Words joined by single spaces spell the command of these words. -/
theorem knows_take_iff {k : Nat} (hpos : 0 < k) (hle : k ≤ tokens.length) {entry : Entry H} :
    d.Knows (" ".intercalate (tokens.take k)) entry ↔
      ∃ n : CommandName, n.words = tokens.take k ∧ d.find n = some entry := by
  let name : CommandName := ⟨tokens.take k, by
    rw [← List.length_pos_iff, List.length_take, Nat.min_eq_left hle]
    exact hpos, fun w hw => hwords w (List.mem_of_mem_take hw)⟩
  refine exists_congr fun n => and_congr_left fun _ => ⟨fun hspelling => ?_, fun hn => ?_⟩
  · have hname : n = name := CommandName.spelling_injective hspelling
    rw [hname]
  · rw [CommandName.spelling, hn]

theorem IsLongest.beginsWith {m : Match H} (hm : IsLongest d.Knows tokens 0 m) :
    ∃ n, d.BeginsWith tokens n ∧ d.find n = some m.entry ∧ m.name = n.spelling ∧
      m.count = n.words.length := by
  obtain ⟨n, hn, hfind⟩ := (knows_take_iff hwords hm.lt_count hm.count_le).mp
    (hm.name_eq ▸ hm.known)
  have hcount : m.count = n.words.length := by
    rw [hn, List.length_take, Nat.min_eq_left hm.count_le]
  have hlongest : ∀ n' ∈ d.names, n'.words <+: tokens → n'.words.length ≤ n.words.length := by
    intro n' hknown hbegins
    obtain ⟨entry, hfind'⟩ := Dictionary.mem_names_iff_exists.mp hknown
    by_contra hlonger
    have hlt : m.count < n'.words.length := by omega
    refine hm.unknown _ hlt hbegins.length_le entry ?_
    rw [knows_take_iff hwords (Nat.zero_lt_of_lt hlt) hbegins.length_le]
    exact ⟨n', List.prefix_iff_eq_take.mp hbegins, hfind'⟩
  refine ⟨n, ⟨Dictionary.mem_names_iff_exists.mpr ⟨_, hfind⟩, hn ▸ List.take_prefix _ _, hlongest⟩,
    hfind, ?_, hcount⟩
  rw [hm.name_eq, CommandName.spelling, hn]

theorem Dictionary.BeginsWith.isLongest {n : CommandName} (hn : d.BeginsWith tokens n)
    {entry : Entry H} (hfind : d.find n = some entry) :
    IsLongest d.Knows tokens 0 ⟨n.words.length, n.spelling, entry⟩ := by
  have htake : n.words = tokens.take n.words.length := List.prefix_iff_eq_take.mp hn.begins
  refine ⟨List.length_pos_iff.mpr n.ne_nil, hn.begins.length_le, ?_, ⟨n, rfl, hfind⟩,
    fun k hlt hle entry hknows => ?_⟩
  · rw [← htake, CommandName.spelling]
  · obtain ⟨n', hn', hfind'⟩ := (knows_take_iff hwords (Nat.zero_lt_of_lt hlt) hle).mp hknows
    have hlonger := hn.longest n' (Dictionary.mem_names_iff_exists.mpr ⟨_, hfind'⟩)
      (hn' ▸ List.take_prefix _ _)
    rw [hn', List.length_take, Nat.min_eq_left hle] at hlonger
    exact absurd hlt (Nat.not_lt.mpr hlonger)

theorem isLongest_iff_beginsWith {m : Match H} :
    IsLongest d.Knows tokens 0 m ↔
      ∃ n, d.BeginsWith tokens n ∧ d.find n = some m.entry ∧ m.name = n.spelling ∧
        m.count = n.words.length := by
  constructor
  · exact IsLongest.beginsWith hwords
  · rintro ⟨n, hbegins, hfind, hname, hcount⟩
    cases m
    cases hname
    cases hcount
    exact hbegins.isLongest hwords hfind

end

/-! Histories of calls. -/

/-- The registry after calls. -/
def Registry.after (r : Registry H) (calls : List (Registry.Call H)) : Registry H :=
  calls.foldl (fun r call => (r.answer call).1) r

/-- The calls that register commands under the names listed for each. -/
def registering (commands : List (String × Entry H)) : List (Registry.Call H) :=
  commands.map fun command => .register command.1 command.2

namespace Dictionary

/-- The dictionary after calls. -/
def after (d : Dictionary H) (calls : List (Registry.Call H)) : Dictionary H :=
  calls.foldl (fun d call => (d.answer call).1) d

theorem ext_find {d d' : Dictionary H} (hfind : ∀ n, d.find n = d'.find n) : d = d' := by
  have hnames : d.names = d'.names :=
    Finset.ext fun n => by rw [d.mem_names, d'.mem_names, hfind]
  have hfind : d.find = d'.find := funext hfind
  cases d
  cases d'
  cases hnames
  cases hfind
  rfl

/-- All names listed can be given an entry. -/
def Admits (d : Dictionary H) (listed : String) : Prop :=
  CommandName.listed listed ≠ [] ∧ ∀ n ∈ CommandName.listed listed, n ∉ d.names

section

variable {d : Dictionary H} {listed : String}

theorem not_admits_iff :
    ¬ d.Admits listed ↔ CommandName.listed listed = [] ∨
      ∃ n ∈ CommandName.listed listed, n ∈ d.names := by
  simp only [Admits, not_and_or, not_not, not_forall, exists_prop]

theorem Admits.register (h : d.Admits listed) (entry : Entry H) :
    d.register listed entry = (d.put (CommandName.listed listed) entry, true) :=
  if_neg fun hrefused => not_admits_iff.mpr hrefused h

theorem register_done_iff {entry : Entry H} :
    (d.register listed entry).2 = true ↔ d.Admits listed := by
  by_cases h : d.Admits listed
  · rw [h.register]
    exact ⟨fun _ => h, fun _ => rfl⟩
  · have hrefused : d.register listed entry = (d, false) := if_pos (not_admits_iff.mp h)
    rw [hrefused]
    exact ⟨nofun, fun hadmits => absurd hadmits h⟩

end

theorem admits_put_iff {d : Dictionary H} {names : List CommandName} {entry : Entry H}
    {listed : String} :
    (d.put names entry).Admits listed ↔
      names.Disjoint (CommandName.listed listed) ∧ d.Admits listed := by
  have hnames : ∀ n, n ∈ (d.put names entry).names ↔ n ∈ d.names ∨ n ∈ names := by
    simp [put]
  simp only [Admits, hnames, not_or, List.disjoint_right, imp_and, forall_and]
  tauto

/-- Names that are listed apart may be given entries in any order. -/
theorem put_comm (d : Dictionary H) {names names' : List CommandName}
    (hapart : names.Disjoint names') (entry entry' : Entry H) :
    (d.put names entry).put names' entry' = (d.put names' entry').put names entry := by
  refine ext_find fun n => ?_
  change (if n ∈ names' then some entry' else if n ∈ names then some entry else d.find n) =
    if n ∈ names then some entry else if n ∈ names' then some entry' else d.find n
  by_cases hn : n ∈ names
  · rw [if_neg (hapart hn), if_pos hn, if_pos hn]
  · rw [if_neg hn, if_neg hn]

/-- No name is listed for both of two commands. -/
def Apart (c c' : String × Entry H) : Prop :=
  (CommandName.listed c.1).Disjoint (CommandName.listed c'.1)

instance : Std.Symm (@Apart H) where
  symm _ _ h := List.Disjoint.symm h

theorem forall_answers_registering (d : Dictionary H) (c : String × Entry H)
    (rest : List (String × Entry H)) :
    (∀ a ∈ d.answers (registering (c :: rest)), a = .done true) ↔
      d.Admits c.1 ∧ ∀ a ∈ (d.put (CommandName.listed c.1) c.2).answers (registering rest),
        a = .done true := by
  have hanswers : d.answers (registering (c :: rest)) =
      .done (d.register c.1 c.2).2 :: (d.register c.1 c.2).1.answers (registering rest) := rfl
  rw [hanswers, List.forall_mem_cons, Registry.Answer.done.injEq, register_done_iff]
  exact and_congr_right fun hadmits => by rw [hadmits.register]

/-- Commands can be registered one after another just if each can be on its own and no name
is listed twice. -/
theorem forall_answers_iff (d : Dictionary H) (commands : List (String × Entry H)) :
    (∀ a ∈ d.answers (registering commands), a = .done true) ↔
      (∀ c ∈ commands, d.Admits c.1) ∧ commands.Pairwise Apart := by
  induction commands generalizing d with
  | nil => simp [registering, answers]
  | cons c rest ih =>
      rw [forall_answers_registering, ih, List.forall_mem_cons, List.pairwise_cons]
      simp only [admits_put_iff, forall_and]
      constructor
      · rintro ⟨hc, ⟨hapart, hrest⟩, hpair⟩
        exact ⟨⟨hc, hrest⟩, hapart, hpair⟩
      · rintro ⟨⟨hc, hrest⟩, hapart, hpair⟩
        exact ⟨hc, ⟨hapart, hrest⟩, hpair⟩

/-- Commands that are registered get the names listed for them. -/
theorem after_registering {d : Dictionary H} {commands : List (String × Entry H)}
    (hdone : ∀ a ∈ d.answers (registering commands), a = .done true) :
    d.after (registering commands) =
      commands.foldl (fun d c => d.put (CommandName.listed c.1) c.2) d := by
  induction commands generalizing d with
  | nil => rfl
  | cons c rest ih =>
      obtain ⟨hadmits, hrest⟩ := (forall_answers_registering d c rest).mp hdone
      have hafter : d.after (registering (c :: rest)) =
          (d.register c.1 c.2).1.after (registering rest) := rfl
      rw [hafter, hadmits.register, ih hrest, List.foldl_cons]

/-- In whatever order commands are registered, they can all be, and it comes to the same. -/
theorem registering_perm {d : Dictionary H} {commands commands' : List (String × Entry H)}
    (hperm : commands.Perm commands')
    (hdone : ∀ a ∈ d.answers (registering commands), a = .done true) :
    (∀ a ∈ d.answers (registering commands'), a = .done true) ∧
      d.after (registering commands') = d.after (registering commands) := by
  obtain ⟨hadmits, hapart⟩ := (forall_answers_iff d commands).mp hdone
  have hdone' : ∀ a ∈ d.answers (registering commands'), a = .done true :=
    (forall_answers_iff d commands').mpr ⟨fun c hc => hadmits c (hperm.mem_iff.mpr hc),
      (hperm.pairwise_iff fun h => List.Disjoint.symm h).mp hapart⟩
  refine ⟨hdone', ?_⟩
  rw [after_registering hdone', after_registering hdone]
  refine (hperm.foldl_eq' (fun c hc c' hc' d => ?_) d).symm
  by_cases hsame : c = c'
  · rw [hsame]
  · exact d.put_comm (hapart.forall hc hc' hsame) c.2 c'.2

end Dictionary

namespace Registry

variable {r r' : Registry H} {d d' : Dictionary H}

theorem Agrees.after (h : r.Agrees d) (calls : List (Call H)) :
    (r.after calls).Agrees (d.after calls) := by
  induction calls generalizing r d with
  | nil => exact h
  | cons call rest ih => exact ih (h.answer call).1

/-- Registries of the same commands are the same. -/
theorem Agrees.eq_of_find_eq (h : r.Agrees d) (h' : r'.Agrees d')
    (hfind : ∀ n, d.find n = d'.find n) : r = r' := by
  have hentries : r.entries = r'.entries := by
    rw [h.entries_eq, h'.entries_eq, Dictionary.ext_find hfind]
  cases r
  cases r'
  exact congrArg Registry.mk hentries

theorem Agrees.registering_perm (h : r.Agrees d) {commands commands' : List (String × Entry H)}
    (hperm : commands.Perm commands')
    (hdone : ∀ a ∈ r.answers (registering commands), a = .done true) :
    (∀ a ∈ r.answers (registering commands'), a = .done true) ∧
      r.after (registering commands') = r.after (registering commands) := by
  rw [h.answers] at hdone
  obtain ⟨hdone', hsame⟩ := Dictionary.registering_perm hperm hdone
  refine ⟨by rw [h.answers]; exact hdone', ?_⟩
  exact (h.after _).eq_of_find_eq (h.after _) fun n => by rw [hsame]

end Registry

end RemoteConsole.Session
