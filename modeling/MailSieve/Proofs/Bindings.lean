import MailSieve.Proofs.ByteOrder
import MailSieve.Proofs.Configuration

/-!
# What registries hold

Whatever a registry has been asked to bind, and whatever it has refused, it holds what a plain
map from names to values holds after the same requests. Settings have at most one entry under a
name, so they are never refused as duplicates: they fail at the first id that nothing built-in
has, or their names are bound and no others.
-/

namespace MailSieve

theorem mem_map_fst_iff {entries : List (String × α)} {name : String} :
    name ∈ entries.map (·.1) ↔ (entries.lookup name).isSome = true := by
  rw [List.lookup_isSome_iff, List.mem_map]
  constructor
  · rintro ⟨e, he, rfl⟩
    exact ⟨e, he, beq_self_eq_true _⟩
  · rintro ⟨e, he, hn⟩
    exact ⟨e, he, (eq_of_beq hn).symm⟩

theorem lookup_eq_some_iff_mem {entries : List (String × α)} (hsorted : EntriesSorted entries) {e : String × α} :
    entries.lookup e.1 = some e.2 ↔ e ∈ entries := by
  constructor
  · exact mem_of_lookup
  · intro he
    induction entries with
    | nil => cases he
    | cons d entries ih =>
      obtain ⟨hhead, hsorted⟩ := List.pairwise_cons.1 hsorted
      rw [List.lookup_cons]
      rcases List.mem_cons.1 he with rfl | he
      · simp
      · have hne : (e.1 == d.1) = false := beq_eq_false_iff_ne.2 (ne_of_gt (hhead e he))
        rw [hne]
        exact ih hsorted he

namespace Table

variable (t : Table α)

theorem mem_names_iff {n : String} : n ∈ t.names ↔ (t.get? n).isSome = true :=
  mem_map_fst_iff

theorem names_pairwise : t.names.Pairwise (· < ·) :=
  List.pairwise_map.2 t.sorted

/-- The names are in the order of their bytes. -/
theorem names_ascending : t.names.Pairwise fun a b => Text.bytes a.toList < Text.bytes b.toList :=
  t.names_pairwise.imp fun h => Text.bytes_lt_of_lt (String.lt_iff_toList_lt.1 h)

theorem size_eq_ncard : t.size = {n | (t.get? n).isSome = true}.ncard := by
  have hnodup : t.names.Nodup := t.names_pairwise.imp fun h => ne_of_lt h
  have hnames : {n | (t.get? n).isSome = true} = ↑t.names.toFinset := by
    ext n
    rw [Set.mem_ofPred_eq, ← mem_names_iff, Finset.mem_coe, List.mem_toFinset]
  rw [hnames, Set.ncard_coe_finset, List.toFinset_card_of_nodup hnodup, names, List.length_map, size]

end Table

/-! ## Histories -/

inductive Request (α : Type u)
  | insert (name : String) (value : α)
  | register (name : String) (value : α)

def serveAll (serve : σ → Request α → σ × Except DuplicateError Unit) (s : σ) :
    List (Request α) → σ × List (Except DuplicateError Unit)
  | [] => (s, [])
  | q :: qs =>
    let (s', answer) := serve s q
    let (s'', answers) := serveAll serve s' qs
    (s'', answer :: answers)

def Registry.serve (r : Registry α) : Request α → Registry α × Except DuplicateError Unit
  | .insert name value => (r.insert name value, .ok ())
  | .register name value =>
    match r.register name value with
    | .ok r' => (r', .ok ())
    | .error e => (r, .error e)

abbrev Bindings (α : Type u) := String → Option α

/-- Inserting always binds. Registering binds a name that is free, and any name if duplicates
overwrite; otherwise it is refused and nothing changes. -/
def Bindings.serve (kind : EntryKind) (policy : DuplicatePolicy) (b : Bindings α) :
    Request α → Bindings α × Except DuplicateError Unit
  | .insert name value => (Function.update b name (some value), .ok ())
  | .register name value =>
    if policy = .overwrite ∨ b name = none then (Function.update b name (some value), .ok ())
    else (b, .error ⟨kind, name⟩)

namespace Registry

structure Holds (r : Registry α) (kind : EntryKind) (policy : DuplicatePolicy) (b : Bindings α) : Prop where
  kind : r.kind = kind
  policy : r.policy = policy
  get? : ∀ n, r.get? n = b n

section
variable {r : Registry α} {kind : EntryKind} {policy : DuplicatePolicy} {b : Bindings α}

theorem Holds.insert (h : r.Holds kind policy b) (name : String) (value : α) :
    (r.insert name value).Holds kind policy (Function.update b name (some value)) where
  kind := h.kind
  policy := h.policy
  get? := by
    intro n
    rw [get?_insert, Function.update_apply, h.get?]

theorem Holds.serve (h : r.Holds kind policy b) (q : Request α) :
    (r.serve q).1.Holds kind policy (b.serve kind policy q).1 ∧ (r.serve q).2 = (b.serve kind policy q).2 := by
  cases q with
  | insert name value => exact ⟨h.insert name value, rfl⟩
  | register name value =>
    have hfree : r.table.contains name = (b name).isSome := congrArg Option.isSome (h.get? name)
    simp only [Registry.serve, Bindings.serve, register, hfree, h.policy, h.kind]
    cases policy with
    | overwrite =>
      simp only [reduceCtorEq, false_and, if_false, true_or, if_true]
      exact ⟨h.insert name value, trivial⟩
    | reject =>
      cases hb : b name with
      | none =>
        simp only [Option.isSome_none, Bool.false_eq_true, and_false, if_false, or_true, if_true]
        exact ⟨h.insert name value, trivial⟩
      | some v =>
        simp only [Option.isSome_some, and_self, if_true, reduceCtorEq, or_self, if_false]
        exact ⟨h, trivial⟩

theorem Holds.serveAll (h : r.Holds kind policy b) (qs : List (Request α)) :
    (MailSieve.serveAll Registry.serve r qs).1.Holds kind policy
        (MailSieve.serveAll (Bindings.serve kind policy) b qs).1 ∧
      (MailSieve.serveAll Registry.serve r qs).2 = (MailSieve.serveAll (Bindings.serve kind policy) b qs).2 := by
  induction qs generalizing r b with
  | nil => exact ⟨h, rfl⟩
  | cons q qs ih =>
    obtain ⟨hnext, hanswer⟩ := h.serve q
    obtain ⟨hlast, hanswers⟩ := ih hnext
    exact ⟨hlast, congrArg₂ List.cons hanswer hanswers⟩

structure Shows (r : Registry α) (b : Bindings α) : Prop where
  get? : ∀ n, r.get? n = b n
  lookup : ∀ n, r.lookup n = (b n).elim (.error (.lookup r.kind n .notRegistered)) .ok
  contains : ∀ n, r.contains n = (b n).isSome
  size : r.size = {n | (b n).isSome = true}.ncard
  mem_names : ∀ n, n ∈ r.names ↔ (b n).isSome = true
  names_ascending : r.names.Pairwise fun a b => Text.bytes a.toList < Text.bytes b.toList

theorem Holds.shows (h : r.Holds kind policy b) : r.Shows b where
  get? := h.get?
  lookup := by
    intro n
    unfold Registry.lookup
    rw [h.get?]
    cases b n <;> rfl
  contains := fun n => congrArg Option.isSome (h.get? n)
  size := by
    have hset : {n | (b n).isSome = true} = {n | (r.table.get? n).isSome = true} := by
      ext n
      rw [Set.mem_ofPred_eq, ← h.get?]
      rfl
    rw [hset]
    exact r.table.size_eq_ncard
  mem_names := by
    intro n
    rw [← h.get?]
    exact r.table.mem_names_iff
  names_ascending := r.table.names_ascending

end

end Registry

/-! ## Settings -/

def EntryKind.builtinIds : EntryKind → List String
  | command => CommandKind.all.map (·.id)
  | test => TestKind.all.map (·.1)
  | comparator => Comparator.all.map (·.1)
  | extension => []

/-- Settings register commands first, then tests, then comparators. -/
def EntryKind.rank : EntryKind → Nat
  | command => 0
  | test => 1
  | comparator => 2
  | extension => 3

theorem CommandKind.ofId?_isSome (id : String) : (ofId? id).isSome = true ↔ id ∈ EntryKind.command.builtinIds := by
  simp only [ofId?, List.find?_isSome, decide_eq_true_eq, EntryKind.builtinIds, List.mem_map]

theorem TestKind.ofId?_isSome (id : String) : (ofId? id).isSome = true ↔ id ∈ EntryKind.test.builtinIds :=
  mem_map_fst_iff.symm

theorem Comparator.ofId?_isSome (id : String) : (ofId? id).isSome = true ↔ id ∈ EntryKind.comparator.builtinIds :=
  mem_map_fst_iff.symm

structure Assignment where
  kind : EntryKind
  name : String
  id : String

namespace Assignment

def Known (a : Assignment) : Prop :=
  a.id ∈ a.kind.builtinIds

def Before (a b : Assignment) : Prop :=
  a.kind.rank < b.kind.rank ∨ a.kind = b.kind ∧ Text.bytes a.name.toList < Text.bytes b.name.toList

end Assignment

structure Registry.Fills (r : Registry α) (kind : EntryKind) (policy : DuplicatePolicy)
    (builtin? : String → Option α) (t : Table String) : Prop where
  kind : r.kind = kind
  policy : r.policy = policy
  names : r.names = t.names
  get? : ∀ n id, t.get? n = some id → ∃ value, builtin? id = some value ∧ r.get? n = some value

section
variable {builtin? : String → Option α} {kind : EntryKind}

theorem registerAll_unknown {r : Registry α} {name id : String} {entries : List (String × String)}
    (hid : builtin? id = none) :
    Environment.registerAll builtin? r ((name, id) :: entries) = .error (.unknownId r.kind name id) := by
  unfold Environment.registerAll
  rw [hid]

theorem registerAll_free {r : Registry α} {name id : String} {value : α} {entries : List (String × String)}
    (hid : builtin? id = some value) (hfree : r.get? name = none) :
    Environment.registerAll builtin? r ((name, id) :: entries) =
      Environment.registerAll builtin? (r.insert name value) entries := by
  have hcontains : r.table.contains name = false := congrArg Option.isSome hfree
  conv_lhs => unfold Environment.registerAll
  rw [hid]
  simp only [Registry.register, hcontains, Bool.false_eq_true, and_false, if_false]

/-- Entries under names that are free are registered up to the first id that nothing has. -/
theorem registerAll_of_fresh (hids : ∀ id, (builtin? id).isSome = true ↔ id ∈ kind.builtinIds)
    {entries : List (String × String)} (hsorted : EntriesSorted entries) {r : Registry α} (hkind : r.kind = kind)
    (hfresh : ∀ e ∈ entries, r.get? e.1 = none) :
    (∃ r', Environment.registerAll builtin? r entries = .ok r' ∧ r'.kind = kind ∧ r'.policy = r.policy ∧
      (∀ e ∈ entries, e.2 ∈ kind.builtinIds) ∧
      ∀ n, r'.get? n = ((entries.lookup n).bind builtin?).or (r.get? n)) ∨
    ∃ e ∈ entries, Environment.registerAll builtin? r entries = .error (.unknownId kind e.1 e.2) ∧
      e.2 ∉ kind.builtinIds ∧ ∀ d ∈ entries, d.2 ∉ kind.builtinIds → d = e ∨ e.1 < d.1 := by
  induction entries generalizing r with
  | nil => exact .inl ⟨r, rfl, hkind, rfl, List.forall_mem_nil _, fun n => rfl⟩
  | cons e entries ih =>
    obtain ⟨name, id⟩ := e
    obtain ⟨hhead, hsorted⟩ := List.pairwise_cons.1 hsorted
    have hknown := hids id
    cases hid : builtin? id with
    | none =>
      rw [hid] at hknown
      refine .inr ⟨(name, id), List.mem_cons_self, hkind ▸ registerAll_unknown hid,
        fun h => Bool.false_ne_true (hknown.2 h), ?_⟩
      intro d hd _
      exact (List.mem_cons.1 hd).imp_right (hhead d)
    | some value =>
      rw [hid] at hknown
      have hrest : ∀ d ∈ entries, (r.insert name value).get? d.1 = none := by
        intro d hd
        rw [Registry.get?_insert, if_neg (ne_of_gt (hhead d hd))]
        exact hfresh d (List.mem_cons_of_mem _ hd)
      rw [registerAll_free hid (hfresh (name, id) List.mem_cons_self)]
      obtain ⟨r', hok, hk, hp, hall, hget⟩ | ⟨e, he, herr, hunknown, hfirst⟩ :=
        ih hsorted (r := r.insert name value) hkind hrest
      · refine .inl ⟨r', hok, hk, hp, List.forall_mem_cons.2 ⟨hknown.1 rfl, hall⟩, ?_⟩
        intro n
        rw [hget, Registry.get?_insert, List.lookup_cons]
        by_cases hn : n = name
        · subst hn
          have hlater : entries.lookup n = none :=
            List.lookup_eq_none_iff.2 fun d hd => bne_iff_ne.2 (ne_of_lt (hhead d hd))
          simp [hlater, hid]
        · rw [if_neg hn, beq_eq_false_iff_ne.2 hn]
      · refine .inr ⟨e, List.mem_cons_of_mem _ he, herr, hunknown, ?_⟩
        intro d hd hd'
        rcases List.mem_cons.1 hd with rfl | hd
        · exact absurd (hknown.1 rfl) hd'
        · exact hfirst d hd hd'

/-- A table fills an empty registry, or stops it at its first id that nothing has. -/
theorem registerAll_table (hids : ∀ id, (builtin? id).isSome = true ↔ id ∈ kind.builtinIds)
    (policy : DuplicatePolicy) (t : Table String) :
    (∃ r, Environment.registerAll builtin? (.empty kind policy) t.entries = .ok r ∧
      r.Fills kind policy builtin? t ∧ ∀ n id, t.get? n = some id → id ∈ kind.builtinIds) ∨
    ∃ n id, Environment.registerAll builtin? (.empty kind policy) t.entries = .error (.unknownId kind n id) ∧
      t.get? n = some id ∧ id ∉ kind.builtinIds ∧
      ∀ m id', t.get? m = some id' → id' ∉ kind.builtinIds → (m, id') = (n, id) ∨ n < m := by
  obtain ⟨r, hok, hkind, hpolicy, hall, hget⟩ | ⟨e, he, herr, hunknown, hfirst⟩ :=
    registerAll_of_fresh hids t.sorted (r := .empty kind policy) rfl fun _ _ => rfl
  · have hget : ∀ n, r.get? n = (t.get? n).bind builtin? := fun n => (hget n).trans Option.or_none
    have hbound : ∀ n id, t.get? n = some id → ∃ value, builtin? id = some value ∧ r.get? n = some value := by
      intro n id hn
      obtain ⟨value, hvalue⟩ := Option.isSome_iff_exists.1 ((hids id).2 (hall _ (mem_of_lookup hn)))
      exact ⟨value, hvalue, by rw [hget, hn, Option.bind_some, hvalue]⟩
    refine .inl ⟨r, hok, ⟨hkind, hpolicy, ?_, hbound⟩, fun n id hn => hall _ (mem_of_lookup hn)⟩
    refine r.table.names_pairwise.eq_of_mem_iff t.names_pairwise ?_
    intro n
    rw [Table.mem_names_iff, Table.mem_names_iff]
    change (r.get? n).isSome = true ↔ _
    cases hn : t.get? n with
    | none => rw [hget, hn]; rfl
    | some id =>
      obtain ⟨value, -, hvalue⟩ := hbound n id hn
      rw [hvalue]; rfl
  · refine .inr ⟨e.1, e.2, herr, (lookup_eq_some_iff_mem t.sorted).2 he, hunknown, ?_⟩
    intro m id' hm hid'
    exact hfirst _ (mem_of_lookup hm) hid'

end

namespace Settings

def table (s : Settings) : EntryKind → Table String
  | .command => s.commands
  | .test => s.tests
  | .comparator => s.comparators
  | .extension => .empty

def Assigns (s : Settings) (a : Assignment) : Prop :=
  (s.table a.kind).get? a.name = some a.id

/-- Of what the settings assign, the first of which nothing has the id. -/
structure FirstUnknown (s : Settings) (a : Assignment) : Prop where
  assigned : s.Assigns a
  unknown : ¬ a.Known
  first : ∀ b, s.Assigns b → ¬ b.Known → b = a ∨ a.Before b

structure Fills (s : Settings) (env : Environment) : Prop where
  commands : env.commands.Fills .command s.duplicatePolicy CommandKind.ofId? s.commands
  tests : env.tests.Fills .test s.duplicatePolicy TestKind.ofId? s.tests
  comparators : env.comparators.Fills .comparator s.duplicatePolicy Comparator.ofId? s.comparators
  enforceRequire : env.enforceRequire = s.enforceRequire

/-- The kinds before are known, and within the kind an unknown id has no smaller name. -/
theorem firstUnknown_of_table {s : Settings} {kind : EntryKind} {n id : String}
    (hbefore : ∀ k, k.rank < kind.rank → ∀ m id', (s.table k).get? m = some id' → id' ∈ k.builtinIds)
    (hassigned : (s.table kind).get? n = some id) (hunknown : id ∉ kind.builtinIds)
    (hfirst : ∀ m id', (s.table kind).get? m = some id' → id' ∉ kind.builtinIds → (m, id') = (n, id) ∨ n < m) :
    s.FirstUnknown ⟨kind, n, id⟩ where
  assigned := hassigned
  unknown := hunknown
  first := by
    rintro ⟨k, m, id'⟩ hassigned' hunknown'
    rcases lt_trichotomy k.rank kind.rank with hlt | heq | hgt
    · exact absurd (hbefore k hlt m id' hassigned') hunknown'
    · have hk : k = kind := by
        cases k <;> cases kind <;> first | rfl | cases heq
      subst hk
      rcases hfirst m id' hassigned' hunknown' with h | h
      · cases h
        exact .inl rfl
      · exact .inr (.inr ⟨rfl, Text.bytes_lt_of_lt (String.lt_iff_toList_lt.1 h)⟩)
    · exact .inr (.inl hgt)

theorem ofSettings_eq (s : Settings) : Environment.ofSettings s = (do
    let commands ← Environment.registerAll CommandKind.ofId? (.empty .command s.duplicatePolicy) s.commands.entries
    let tests ← Environment.registerAll TestKind.ofId? (.empty .test s.duplicatePolicy) s.tests.entries
    let comparators ←
      Environment.registerAll Comparator.ofId? (.empty .comparator s.duplicatePolicy) s.comparators.entries
    return ⟨commands, tests, comparators, s.enforceRequire⟩) := rfl

/-- Settings give an environment if all they assign is known, and the first unknown otherwise. -/
theorem ofSettings_cases (s : Settings) :
    (∃ env, Environment.ofSettings s = .ok env ∧ s.Fills env ∧ ∀ a, s.Assigns a → a.Known) ∨
    ∃ a, Environment.ofSettings s = .error (.unknownId a.kind a.name a.id) ∧ s.FirstUnknown a := by
  obtain ⟨commands, hcommands, hfills₁, hknown₁⟩ | ⟨n, id, hcommands, hassigned, hunknown, hfirst⟩ :=
    registerAll_table CommandKind.ofId?_isSome s.duplicatePolicy s.commands
  case inr =>
    refine .inr ⟨⟨.command, n, id⟩, ?_, firstUnknown_of_table ?_ hassigned hunknown hfirst⟩
    · rw [ofSettings_eq, hcommands]
      rfl
    · exact fun k hk => absurd hk (Nat.not_lt_zero _)
  obtain ⟨tests, htests, hfills₂, hknown₂⟩ | ⟨n, id, htests, hassigned, hunknown, hfirst⟩ :=
    registerAll_table TestKind.ofId?_isSome s.duplicatePolicy s.tests
  case inr =>
    refine .inr ⟨⟨.test, n, id⟩, ?_, firstUnknown_of_table ?_ hassigned hunknown hfirst⟩
    · rw [ofSettings_eq, hcommands, ok_bind, htests]
      rfl
    · intro k hk
      cases k with
      | command => exact hknown₁
      | _ => simp [EntryKind.rank] at hk
  obtain ⟨comparators, hcomparators, hfills₃, hknown₃⟩ | ⟨n, id, hcomparators, hassigned, hunknown, hfirst⟩ :=
    registerAll_table Comparator.ofId?_isSome s.duplicatePolicy s.comparators
  case inr =>
    refine .inr ⟨⟨.comparator, n, id⟩, ?_, firstUnknown_of_table ?_ hassigned hunknown hfirst⟩
    · rw [ofSettings_eq, hcommands, ok_bind, htests, ok_bind, hcomparators]
      rfl
    · intro k hk
      cases k with
      | command => exact hknown₁
      | test => exact hknown₂
      | _ => simp [EntryKind.rank] at hk
  refine .inl ⟨⟨commands, tests, comparators, s.enforceRequire⟩, ?_, ⟨hfills₁, hfills₂, hfills₃, rfl⟩, ?_⟩
  · rw [ofSettings_eq, hcommands, ok_bind, htests, ok_bind, hcomparators]
    rfl
  · rintro ⟨k, n, id⟩ hassigned
    cases k with
    | command => exact hknown₁ n id hassigned
    | test => exact hknown₂ n id hassigned
    | comparator => exact hknown₃ n id hassigned
    | extension => cases hassigned

end Settings

/-- Through any requests a registry answers and holds what the bindings do. Settings are then never
refused as duplicates: they fail at the first id that nothing has, and else all they assign is
bound and nothing more. -/
theorem registries_bind :
    (∀ (α : Type u) (kind : EntryKind) (policy : DuplicatePolicy) (qs : List (Request α)),
      let run := serveAll Registry.serve (.empty kind policy) qs
      let bindings := serveAll (Bindings.serve kind policy) (fun _ => none) qs
      run.2 = bindings.2 ∧ run.1.Shows bindings.1 ∧ run.1.kind = kind ∧ run.1.policy = policy) ∧
    ∀ s : Settings,
      (∀ e, Environment.ofSettings s ≠ .error (.duplicate e)) ∧
      ((∃ env, Environment.ofSettings s = .ok env) ↔ ∀ a, s.Assigns a → a.Known) ∧
      (∀ env, Environment.ofSettings s = .ok env → s.Fills env) ∧
      ∀ e, Environment.ofSettings s = .error e → ∃ a, s.FirstUnknown a ∧ e = .unknownId a.kind a.name a.id := by
  constructor
  · intro α kind policy qs
    have hempty : (Registry.empty kind policy : Registry α).Holds kind policy fun _ => none :=
      ⟨rfl, rfl, fun _ => rfl⟩
    obtain ⟨hholds, hanswers⟩ := hempty.serveAll qs
    exact ⟨hanswers, hholds.shows, hholds.kind, hholds.policy⟩
  · intro s
    obtain ⟨env, hok, hfills, hknown⟩ | ⟨a, herr, hfirst⟩ := s.ofSettings_cases
    · rw [hok]
      refine ⟨?_, ⟨fun _ => hknown, fun _ => ⟨env, rfl⟩⟩, ?_, ?_⟩
      · intro e he
        cases he
      · intro env' henv
        cases henv
        exact hfills
      · intro e he
        cases he
    · rw [herr]
      refine ⟨?_, ⟨?_, ?_⟩, ?_, ?_⟩
      · intro e he
        cases he
      · rintro ⟨env, henv⟩
        cases henv
      · intro hknown
        exact absurd (hknown a hfirst.assigned) hfirst.unknown
      · intro env henv
        cases henv
      · intro e he
        cases he
        exact ⟨a, hfirst, rfl⟩

def refusedThenBound : List (Request Nat) :=
  [.register "b" 1, .register "b" 2, .insert "b" 3, .register "a" 4]

/-- No id of these is known; the command of the smaller name comes first. -/
def missingIds : Settings :=
  { Settings.standard with commands := .ofList [("b", "x"), ("a", "y")], tests := .ofList [("A", "z")] }

theorem registries_bind_refusedThenBound :
    (∃ r, serveAll Registry.serve (.empty .test .reject) refusedThenBound =
        (r, [.ok (), .error ⟨.test, "b"⟩, .ok (), .ok ()]) ∧
      r.lookup "b" = .ok 3 ∧ r.names = ["a", "b"]) ∧
    (∃ env, Environment.ofSettings Environment.renamed = .ok env ∧ Environment.renamed.Fills env) ∧
    ∃ e, Environment.ofSettings missingIds = .error e ∧ e = .unknownId .command "a" "y" ∧
      missingIds.FirstUnknown ⟨.command, "a", "y"⟩ := by
  obtain ⟨hhistories, hsettings⟩ := registries_bind
  refine ⟨?_, ?_, ?_⟩
  · obtain ⟨hanswers, hshows, -⟩ := hhistories Nat .test .reject refusedThenBound
    exact ⟨_, Prod.ext rfl (hanswers.trans rfl), (hshows.lookup "b").trans rfl, rfl⟩
  · obtain ⟨-, -, hfills, -⟩ := hsettings Environment.renamed
    obtain ⟨env, henv⟩ : ∃ env, Environment.ofSettings Environment.renamed = .ok env := ⟨_, rfl⟩
    exact ⟨env, henv, hfills env henv⟩
  · obtain ⟨-, -, -, hfirst⟩ := hsettings missingIds
    have herr : Environment.ofSettings missingIds = .error (.unknownId .command "a" "y") := rfl
    obtain ⟨⟨kind, name, id⟩, ha, heq⟩ := hfirst _ herr
    cases heq
    exact ⟨_, herr, rfl, ha⟩

end MailSieve
