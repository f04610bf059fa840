import MailSieve.Proofs.Computation

/-!
# What acceptance says

Each stage of the static checks read backwards: what holds of a test, a command
or a sequence that passes. Capabilities grow in the opening `require` commands
only, so a block is checked under those of its surroundings.
-/

namespace MailSieve

/-! ## Operands -/

theorem Command.conditional_eq_ok {c : Command} {t : Test} {block : List Command} :
    c.conditional = .ok (t, block) ↔ c.block = some block ∧ c.arguments = [] ∧ c.tests = some [t] := by
  unfold conditional
  split
  · simp_all
  · split
    · simp_all
    · split <;> simp_all [and_comm]

theorem Command.operand_of_action {c : Command} {what s : String} (h : c.action what = .ok s) :
    c.operand what = .ok s := by
  obtain ⟨-, -, h⟩ := bind_eq_ok.1 h
  obtain ⟨-, -, h⟩ := bind_eq_ok.1 h
  exact h

theorem Command.operand_of_redirectAddress {c : Command} {s : String} (h : c.redirectAddress = .ok s) :
    ∃ address, c.operand "address" = .ok address := by
  obtain ⟨address, h, -⟩ := bind_eq_ok.1 h
  exact ⟨address, operand_of_action h⟩

namespace Environment

/-! ## Capabilities -/

theorem checkEnabled_mono {env : Environment} {en en' : List String} (hsub : en ⊆ en') {kind : EntryKind}
    {name : String} {ext : Bool} (h : env.checkEnabled en kind name ext = .ok ()) :
    env.checkEnabled en' kind name ext = .ok () := by
  unfold checkEnabled at *
  by_cases hc : (!ext || !env.enforceRequire || en.contains (capability kind name)) = true
  · have hc' : (!ext || !env.enforceRequire || en'.contains (capability kind name)) = true := by
      simp only [Bool.or_eq_true, List.contains_iff_mem] at hc ⊢
      exact hc.imp_right (hsub ·)
    rw [if_pos hc']
  · rw [if_neg hc] at h; cases h

theorem checkEnabled_core (env : Environment) (en : List String) (kind : EntryKind) (name : String) :
    env.checkEnabled en kind name false = .ok () := by
  simp [checkEnabled]

theorem comparator_eq_ok {env : Environment} {en : List String} {name : String} {c : Comparator} :
    env.comparator en name = .ok c ↔
      env.comparators.lookup name = .ok c ∧ env.checkEnabled en .comparator name c.isExtension = .ok () := by
  simp only [comparator, bind_eq_ok, pure_eq_ok]
  constructor
  · rintro ⟨c', hl, ⟨⟩, he, rfl⟩
    exact ⟨hl, he⟩
  · rintro ⟨hl, he⟩
    exact ⟨c, hl, (), he, rfl⟩

theorem comparator_mono {env : Environment} {en en' : List String} (hsub : en ⊆ en') {name : String}
    {c : Comparator} (h : env.comparator en name = .ok c) : env.comparator en' name = .ok c := by
  rw [comparator_eq_ok] at *
  exact ⟨h.1, checkEnabled_mono hsub h.2⟩

/-! ## Tests -/

structure AcceptsTest (env : Environment) (en : List String) (t : Test) (kind : TestKind) : Prop where
  lookup : env.tests.lookup t.name = .ok kind
  shape : kind.check t = .ok ()
  enabled : env.checkEnabled en .test t.name kind.isExtension = .ok ()
  comparators : ∀ name ∈ namedComparators t.arguments, ∃ c, env.comparator en name = .ok c

theorem validateComparators_eq_ok {env : Environment} {en names : List String} :
    env.validateComparators en names = .ok () ↔ ∀ name ∈ names, ∃ c, env.comparator en name = .ok c := by
  induction names with
  | nil => simp [validateComparators]
  | cons name names ih => simp [validateComparators, bind_eq_ok, ih]

theorem validateTest_eq_ok {env : Environment} {en : List String} {t : Test} :
    env.validateTest en t = .ok () ↔
      (∃ kind, AcceptsTest env en t kind) ∧ env.validateTests? en t.tests = .ok () := by
  obtain ⟨name, arguments, tests, position⟩ := t
  simp only [validateTest, validateTestUse, bind_eq_ok, mapError_eq_ok]
  constructor
  · rintro ⟨⟨⟩, ⟨kind, hl, ⟨⟩, hs, ⟨⟩, he, hc⟩, ht⟩
    exact ⟨⟨kind, hl, hs, he, validateComparators_eq_ok.1 hc⟩, ht⟩
  · rintro ⟨⟨kind, hl, hs, he, hc⟩, ht⟩
    exact ⟨(), ⟨kind, hl, (), hs, (), he, validateComparators_eq_ok.2 hc⟩, ht⟩

theorem validateTests_eq_ok {env : Environment} {en : List String} {ts : List Test} :
    env.validateTests en ts = .ok () ↔ ∀ t ∈ ts, env.validateTest en t = .ok () := by
  induction ts with
  | nil => simp [validateTests]
  | cons t ts ih =>
    simp only [validateTests, bind_eq_ok, ih, List.forall_mem_cons]
    exact ⟨fun ⟨_, h, hs⟩ => ⟨h, hs⟩, fun ⟨h, hs⟩ => ⟨(), h, hs⟩⟩

/-! ## Commands -/

structure AcceptsCommand (env : Environment) (en : List String) (c : Command) (kind : CommandKind) :
    Prop where
  lookup : env.commands.lookup c.name = .ok kind
  shape : kind.check c = .ok ()
  enabled : env.checkEnabled en .command c.name kind.isExtension = .ok ()

def Requires (env : Environment) (en : List String) (c : Command) (en' : List String) : Prop :=
  if c.name = requireName then ∃ names, c.requirements = .ok names ∧ env.requireAll en names = .ok en'
  else en' = en

theorem validateCommandUse_eq_ok {env : Environment} {en en' : List String} {c : Command} :
    env.validateCommandUse en c = .ok en' ↔
      ∃ kind, AcceptsCommand env en c kind ∧ Requires env en c en' := by
  have hreq : (if c.name = requireName then (do env.requireAll en (← liftShape c.requirements))
      else return en) = .ok en' ↔ Requires env en c en' := by
    unfold Requires
    by_cases hn : c.name = requireName
    · simp only [if_pos hn, bind_eq_ok, liftShape_eq_ok]
    · simp only [if_neg hn, pure_eq_ok]
      exact eq_comm
  simp only [validateCommandUse, bind_eq_ok, mapError_eq_ok, liftShape_eq_ok]
  constructor
  · rintro ⟨kind, hl, ⟨⟩, hs, ⟨⟩, he, hr⟩
    exact ⟨kind, ⟨hl, hs, he⟩, hreq.1 hr⟩
  · rintro ⟨kind, ⟨hl, hs, he⟩, hr⟩
    exact ⟨kind, hl, (), hs, (), he, hreq.2 hr⟩

theorem validateCommand_eq_ok {env : Environment} {en en'' : List String} {c : Command} :
    env.validateCommand en c = .ok en'' ↔
      ∃ kind en', AcceptsCommand env en c kind ∧ Requires env en c en' ∧
        env.validateTests? en' c.tests = .ok () ∧ env.validateBlock? en' c.block = .ok en'' := by
  obtain ⟨name, arguments, tests, block, position⟩ := c
  simp only [validateCommand, bind_eq_ok, validateCommandUse_eq_ok]
  constructor
  · rintro ⟨en', ⟨kind, ha, hr⟩, ⟨⟩, ht, hb⟩
    exact ⟨kind, en', ha, hr, ht, hb⟩
  · rintro ⟨kind, en', ha, hr, ht, hb⟩
    exact ⟨en', ⟨kind, ha, hr⟩, (), ht, hb⟩

theorem Place.check_eq_ok {p : Place} {name : String} :
    p.check name = .ok () ↔ (name = requireName → p.preamble = true) ∧
      (name = "elsif" ∨ name = "else" → p.previous = some "if" ∨ p.previous = some "elsif") := by
  unfold Place.check
  by_cases hr : name = requireName ∧ (!p.preamble) = true
  · rw [if_pos hr]
    refine ⟨fun h => absurd h throw_ne_ok, fun h => ?_⟩
    have := h.1 hr.1
    simp [this] at hr
  · by_cases hc : (name = "elsif" ∨ name = "else") ∧ p.previous ≠ some "if" ∧ p.previous ≠ some "elsif"
    · rw [if_neg hr, if_pos hc]
      refine ⟨fun h => absurd h throw_ne_ok, fun h => ?_⟩
      exact absurd (h.2 hc.1) (by simp [hc.2])
    · rw [if_neg hr, if_neg hc]
      refine ⟨fun _ => ⟨fun hn => ?_, fun hn => ?_⟩, fun _ => rfl⟩
      · simpa [hn] using hr
      · rw [not_and] at hc
        simpa [Classical.or_iff_not_imp_left] using hc hn

/-- Where a chain may go on, it has been opened. -/
theorem Place.open_of_check {p : Place} {name : String} {branch : Branch} (hp : p.check name = .ok ())
    (hn : name = "elsif" ∨ name = "else")
    (hchain : p.previous = some "if" ∨ p.previous = some "elsif" → branch ≠ .none) :
    branch = .pending ∨ branch = .taken := by
  have hopen : branch ≠ .none := hchain ((Place.check_eq_ok.1 hp).2 hn)
  cases branch with
  | none => exact absurd rfl hopen
  | pending => exact .inl rfl
  | taken => exact .inr rfl

theorem validateSequence_cons_eq_ok {env : Environment} {en en'' : List String} {p : Place} {c : Command}
    {cs : List Command} :
    env.validateSequence en p (c :: cs) = .ok en'' ↔
      p.check c.name = .ok () ∧ ∃ en', env.validateCommand en c = .ok en' ∧
        env.validateSequence en' (p.after c.name) cs = .ok en'' := by
  simp only [validateSequence, bind_eq_ok, mapError_eq_ok]
  constructor
  · rintro ⟨⟨⟩, hp, en', hc, hs⟩
    exact ⟨hp, en', hc, hs⟩
  · rintro ⟨hp, en', hc, hs⟩
    exact ⟨(), hp, en', hc, hs⟩

/-! ## Capabilities stay as they are in blocks -/

mutual
theorem validateCommand_enabled {env : Environment} {en en' : List String} : ∀ {c : Command},
    c.name ≠ requireName → env.validateCommand en c = .ok en' → en' = en
  | ⟨name, arguments, tests, block, position⟩, hne, h => by
    obtain ⟨kind, en₁, -, hr, -, hb⟩ := validateCommand_eq_ok.1 h
    rw [Requires, if_neg hne] at hr
    subst hr
    exact validateBlock?_enabled hb

theorem validateBlock?_enabled {env : Environment} {en en' : List String} : ∀ {block : Option (List Command)},
    env.validateBlock? en block = .ok en' → en' = en
  | none, h => by cases h; rfl
  | some commands, h => validateSequence_enabled (p := .start false) rfl h

theorem validateSequence_enabled {env : Environment} {en en' : List String} : ∀ {p : Place}
    {cs : List Command}, p.preamble = false → env.validateSequence en p cs = .ok en' → en' = en
  | _, [], _, h => by cases h; rfl
  | p, c :: cs, hp, h => by
    obtain ⟨hc, en₁, hcommand, hrest⟩ := validateSequence_cons_eq_ok.1 h
    have hne : c.name ≠ requireName := by
      intro hn
      rw [(Place.check_eq_ok.1 hc).1 hn] at hp
      cases hp
    have hafter : (p.after c.name).preamble = false := by simp [Place.after, hp]
    rw [validateSequence_enabled hafter hrest, validateCommand_enabled hne hcommand]
end

end Environment

end MailSieve
