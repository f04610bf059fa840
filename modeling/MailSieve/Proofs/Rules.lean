import MailSieve.Proofs.Acceptance
import MailSieve.Proofs.Preorder
import MailSieve.Proofs.StandardNames

/-!
# The rules of a script

What the static checks amount to, said of the script as a whole and without an
order in which it is walked. The walk carries the capabilities required so far;
as `require` comes first, they are all there when one is needed.
-/

namespace MailSieve

open Environment (requireName)

/-! ## Rules -/

def Command.listed (c : Command) : List String :=
  c.arguments.flatMap fun
    | .strings items => items
    | _ => []

namespace Script

def sequences (script : Script) : List (List Command) :=
  script :: (preorder script).filterMap (·.block)

def required (script : Script) : List String :=
  ((preorder script).filter (·.name = requireName)).flatMap Command.listed

/-- Every `elsif` and `else` stands directly after an `if` or `elsif`; `previous` is the
name before the first command, if there is one. -/
def ChainsOpened (previous : Option String) (cs : List Command) : Prop :=
  (previous :: cs.map fun c => some c.name).IsChain fun before name =>
    name = some "elsif" ∨ name = some "else" → before = some "if" ∨ before = some "elsif"

end Script

namespace Environment

structure Obeys (env : Environment) (script : Script) : Prop where
  requireFirst : script.Pairwise fun c d => d.name = requireName → c.name = requireName
  requireTop : ∀ c ∈ script, ∀ d ∈ Script.blockPreorder c.block, d.name ≠ requireName
  chains : ∀ cs ∈ Script.sequences script, Script.ChainsOpened none cs
  commands : ∀ c ∈ Script.preorder script, ∃ kind,
    env.commands.lookup c.name = .ok kind ∧ kind.check c = .ok ()
  tests : ∀ t ∈ Script.tests script, ∃ kind, env.tests.lookup t.name = .ok kind ∧ kind.check t = .ok ()
  available : ∀ name ∈ Script.required script, env.isAvailable name = true
  comparators : ∀ t ∈ Script.tests script, ∀ name ∈ namedComparators t.arguments,
    ∃ comparator, env.comparators.lookup name = .ok comparator
  commandsRequired : env.enforceRequire = true → ∀ c ∈ Script.preorder script, ∀ kind,
    env.commands.lookup c.name = .ok kind → kind.isExtension = true → c.name ∈ Script.required script
  testsRequired : env.enforceRequire = true → ∀ t ∈ Script.tests script, ∀ kind,
    env.tests.lookup t.name = .ok kind → kind.isExtension = true → t.name ∈ Script.required script
  comparatorsRequired : env.enforceRequire = true → ∀ t ∈ Script.tests script,
    ∀ name ∈ namedComparators t.arguments, ∀ comparator, env.comparators.lookup name = .ok comparator →
      comparator.isExtension = true → "comparator-" ++ name ∈ Script.required script

section
variable {env : Environment} {en en' : List String} {c : Command} {cs : List Command}

/-! ## Capabilities -/

theorem checkEnabled_eq_ok {kind : EntryKind} {name : String} {ext : Bool} :
    env.checkEnabled en kind name ext = .ok () ↔
      (env.enforceRequire = true → ext = true → capability kind name ∈ en) := by
  unfold checkEnabled
  cases ext <;> cases env.enforceRequire <;> simp

theorem requireAll_eq_ok {names : List String} :
    (∃ en', env.requireAll en names = .ok en') ↔ ∀ name ∈ names, env.isAvailable name = true := by
  induction names generalizing en with
  | nil => simp [requireAll]
  | cons name names ih =>
    unfold requireAll
    by_cases hav : env.isAvailable name = true
    · rw [if_pos hav, ih]
      simp [hav]
    · rw [if_neg hav]
      simp [hav]

theorem mem_of_requireAll {names : List String} (h : env.requireAll en names = .ok en') (name : String) :
    name ∈ en' ↔ name ∈ en ∨ name ∈ names := by
  induction names generalizing en with
  | nil => cases h; simp
  | cons n names ih =>
    unfold requireAll at h
    split at h
    · rw [ih h, List.mem_insert_iff, List.mem_cons, or_assoc, or_left_comm]
    · cases h

/-! ## Tests -/

mutual
theorem validateTest_eq_ok_forall : ∀ {t : Test}, env.validateTest en t = .ok () ↔
    ∀ u ∈ t.preorder, ∃ kind, AcceptsTest env en u kind
  | ⟨name, arguments, tests, position⟩ => by
    rw [validateTest_eq_ok, Test.preorder_eq, List.forall_mem_cons, validateTests?_eq_ok_forall]

theorem validateTests?_eq_ok_forall : ∀ {tests : Option (List Test)}, env.validateTests? en tests = .ok () ↔
    ∀ u ∈ Test.preorder? tests, ∃ kind, AcceptsTest env en u kind
  | none => by simp [validateTests?, Test.preorder?]
  | some tests => by
    rw [validateTests?, Test.preorder?, validateTests_eq_ok_forall]

theorem validateTests_eq_ok_forall : ∀ {tests : List Test}, env.validateTests en tests = .ok () ↔
    ∀ u ∈ Test.preorderAll tests, ∃ kind, AcceptsTest env en u kind
  | [] => by simp [validateTests, Test.preorderAll]
  | t :: ts => by
    rw [validateTests_eq_ok, List.forall_mem_cons, ← validateTests_eq_ok, Test.preorderAll,
      List.forall_mem_append, validateTest_eq_ok_forall, validateTests_eq_ok_forall]
end

/-! ## Commands after the opening ones -/

/-- The command and its tests pass the checks, and its block opens the chains it goes
on. -/
structure Passes (env : Environment) (en : List String) (c : Command) : Prop where
  command : ∃ kind, AcceptsCommand env en c kind
  tests : ∀ t ∈ Test.preorder? c.tests, ∃ kind, AcceptsTest env en t kind
  chains : ∀ block, c.block = some block → Script.ChainsOpened none block

/-- Which capabilities there are matters, not their order. -/
theorem Passes.congr (hmem : ∀ name, name ∈ en ↔ name ∈ en') (h : Passes env en c) : Passes env en' c := by
  have hsub : en ⊆ en' := fun name hname => (hmem name).1 hname
  refine ⟨?_, fun t ht => ?_, h.chains⟩
  · obtain ⟨kind, hl, hs, he⟩ := h.command
    exact ⟨kind, hl, hs, checkEnabled_mono hsub he⟩
  · obtain ⟨kind, hl, hs, he, hc⟩ := h.tests t ht
    refine ⟨kind, hl, hs, checkEnabled_mono hsub he, fun name hname => ?_⟩
    obtain ⟨comparator, hc⟩ := hc name hname
    exact ⟨comparator, comparator_mono hsub hc⟩

theorem chainsOpened_cons {previous : Option String} : Script.ChainsOpened previous (c :: cs) ↔
    (c.name = "elsif" ∨ c.name = "else" → previous = some "if" ∨ previous = some "elsif") ∧
      Script.ChainsOpened (some c.name) cs := by
  simp [Script.ChainsOpened]

mutual
theorem validateCommand_eq_ok_passes : ∀ {c : Command} {en en' : List String}, c.name ≠ requireName →
    (env.validateCommand en c = .ok en' ↔
      en' = en ∧ ∀ d ∈ c.preorder, d.name ≠ requireName ∧ Passes env en d)
  | ⟨name, arguments, tests, block, position⟩, en, en', hne => by
    rw [validateCommand_eq_ok, Command.preorder_eq, List.forall_mem_cons]
    simp only [Requires, if_neg hne, validateTests?_eq_ok_forall, validateBlock?_eq_ok_passes]
    constructor
    · rintro ⟨kind, _, haccepts, rfl, htests, rfl, hchains, hblock⟩
      exact ⟨rfl, ⟨hne, ⟨kind, haccepts⟩, htests, hchains⟩, hblock⟩
    · rintro ⟨rfl, ⟨-, ⟨kind, haccepts⟩, htests, hchains⟩, hblock⟩
      exact ⟨kind, en', haccepts, rfl, htests, rfl, hchains, hblock⟩

theorem validateBlock?_eq_ok_passes : ∀ {block : Option (List Command)} {en en' : List String},
    env.validateBlock? en block = .ok en' ↔ en' = en ∧
      (∀ cs, block = some cs → Script.ChainsOpened none cs) ∧
      ∀ d ∈ Script.blockPreorder block, d.name ≠ requireName ∧ Passes env en d
  | none, en, en' => by
    simp [validateBlock?, Script.blockPreorder, eq_comm]
  | some cs, en, en' => by
    have h := @validateSequence_eq_ok_passes cs (.start false) en en' rfl
    simpa [validateBlock?, Script.blockPreorder, Place.start] using h

theorem validateSequence_eq_ok_passes : ∀ {cs : List Command} {p : Place} {en en' : List String},
    p.preamble = false → (env.validateSequence en p cs = .ok en' ↔ en' = en ∧
      Script.ChainsOpened p.previous cs ∧
      ∀ d ∈ Script.preorder cs, d.name ≠ requireName ∧ Passes env en d)
  | [], p, en, en', _ => by
    simp [validateSequence, Script.ChainsOpened, Script.preorder, eq_comm]
  | c :: cs, p, en, en', hp => by
    have hafter : (p.after c.name).preamble = false := by simp [Place.after, hp]
    rw [validateSequence_cons_eq_ok, Place.check_eq_ok, chainsOpened_cons, Script.preorder,
      List.forall_mem_append]
    simp only [validateSequence_eq_ok_passes hafter, hp]
    constructor
    · rintro ⟨⟨hreq, hchain⟩, en₁, hc, rfl, hchains, hcs⟩
      have hne : c.name ≠ requireName := fun h => nomatch hreq h
      obtain ⟨rfl, hc⟩ := (validateCommand_eq_ok_passes hne).1 hc
      exact ⟨rfl, ⟨hchain, hchains⟩, hc, hcs⟩
    · rintro ⟨rfl, ⟨hchain, hchains⟩, hc, hcs⟩
      have hne : c.name ≠ requireName := (hc c c.mem_preorder_self).1
      exact ⟨⟨fun h => absurd h hne, hchain⟩, en', (validateCommand_eq_ok_passes hne).2 ⟨rfl, hc⟩, rfl,
        hchains, hcs⟩
end

/-! ## Opening commands -/

theorem requirements_eq_ok {names : List String} :
    c.requirements = .ok names ↔ c.block = none ∧ c.arguments = [.strings names] ∧ c.tests = none := by
  unfold Command.requirements Command.refuseBlock
  cases hb : c.block with
  | some block => exact ⟨fun h => (nomatch h), fun h => (nomatch h.1)⟩
  | none =>
    simp only [Option.isSome_none, Bool.false_eq_true, if_false, ok_bind, true_and]
    split
    · simp_all [pure_eq_ok]
    · next hno =>
      refine ⟨fun h => absurd h throw_ne_ok, fun h => absurd h.2 ?_⟩
      exact hno names h.1

theorem validateCommand_require (hrequire : env.commands.lookup requireName = .ok .require)
    (hn : c.name = requireName) : env.validateCommand en c = .ok en' ↔
      ∃ names, c.requirements = .ok names ∧ env.requireAll en names = .ok en' := by
  rw [validateCommand_eq_ok]
  simp only [Requires, if_pos hn]
  constructor
  · rintro ⟨kind, en₁, -, ⟨names, hnames, hall⟩, -, hblock⟩
    rw [(requirements_eq_ok.1 hnames).1] at hblock
    cases hblock
    exact ⟨names, hnames, hall⟩
  · rintro ⟨names, hnames, hall⟩
    obtain ⟨hblock, -, htests⟩ := requirements_eq_ok.1 hnames
    refine ⟨.require, en', ⟨hn ▸ hrequire, ?_, checkEnabled_core ..⟩, ⟨names, hnames, hall⟩, ?_, ?_⟩
    · exact verdict_eq_ok.2 ⟨names, hnames⟩
    · rw [htests]; rfl
    · rw [hblock]; rfl

theorem required_nil (h : ∀ d ∈ Script.preorder cs, d.name ≠ requireName) : Script.required cs = [] := by
  have hfilter : (Script.preorder cs).filter (·.name = requireName) = [] := by
    simpa [List.filter_eq_nil_iff] using h
  rw [Script.required, hfilter]
  rfl

theorem required_cons {names : List String} (hn : c.name = requireName) (h : c.requirements = .ok names) :
    Script.required (c :: cs) = names ++ Script.required cs := by
  obtain ⟨hblock, harguments, -⟩ := requirements_eq_ok.1 h
  simp [Script.required, Script.preorder, Command.preorder_eq, hblock, Script.blockPreorder, hn,
    Command.listed, harguments]

/-- The rules for the rest of a script, when `en` is enabled and a command `previous`
stands before it. -/
structure ObeysAfter (env : Environment) (en : List String) (previous : Option String) (cs : List Command) :
    Prop where
  requireFirst : cs.Pairwise fun c d => d.name = requireName → c.name = requireName
  requireTop : ∀ c ∈ cs, ∀ d ∈ Script.blockPreorder c.block, d.name ≠ requireName
  chains : Script.ChainsOpened previous cs
  available : ∀ name ∈ Script.required cs, env.isAvailable name = true
  passes : ∀ c ∈ Script.preorder cs, Passes env (en ++ Script.required cs) c

section
variable {previous : Option String}

theorem obeysAfter_require {names : List String} (hrequire : env.commands.lookup requireName = .ok .require)
    (hn : c.name = requireName) (hnames : c.requirements = .ok names) (hall : env.requireAll en names = .ok en') :
    ObeysAfter env en previous (c :: cs) ↔ ObeysAfter env en' (some c.name) cs := by
  have hmem : ∀ name, name ∈ en ++ Script.required (c :: cs) ↔ name ∈ en' ++ Script.required cs := by
    intro name
    rw [required_cons hn hnames, List.mem_append, List.mem_append, List.mem_append,
      mem_of_requireAll hall, or_assoc]
  constructor
  · intro h
    refine ⟨(List.pairwise_cons.1 h.requireFirst).2, (List.forall_mem_cons.1 h.requireTop).2,
      (chainsOpened_cons.1 h.chains).2, fun name hname => ?_, fun d hd => ?_⟩
    · apply h.available
      rw [required_cons hn hnames]
      exact List.mem_append_right _ hname
    · exact (h.passes d (List.mem_append_right _ hd)).congr hmem
  · intro h
    obtain ⟨hblock, -, htests⟩ := requirements_eq_ok.1 hnames
    have hpasses : Passes env (en ++ Script.required (c :: cs)) c := by
      refine ⟨⟨.require, hn ▸ hrequire, verdict_eq_ok.2 ⟨names, hnames⟩, checkEnabled_core ..⟩, ?_, ?_⟩
      · rw [htests]; exact nofun
      · rw [hblock]; exact nofun
    refine ⟨List.pairwise_cons.2 ⟨fun _ _ _ => hn, h.requireFirst⟩,
      List.forall_mem_cons.2 ⟨?_, h.requireTop⟩, chainsOpened_cons.2 ⟨?_, h.chains⟩, fun name hname => ?_, ?_⟩
    · rw [hblock]; exact nofun
    · rw [hn]; exact fun h => absurd h (by decide)
    · rw [required_cons hn hnames] at hname
      rcases List.mem_append.1 hname with hname | hname
      · exact requireAll_eq_ok.1 ⟨en', hall⟩ name hname
      · exact h.available name hname
    · intro d hd
      rw [Script.preorder, Command.preorder_eq, hblock] at hd
      rcases List.mem_append.1 hd with hd | hd
      · rwa [List.mem_singleton.1 hd]
      · exact (h.passes d hd).congr fun name => (hmem name).symm

/-- Behind the first other command no `require` is allowed, so nothing more is enabled. -/
theorem obeysAfter_other (hn : c.name ≠ requireName) : ObeysAfter env en previous (c :: cs) ↔
    Script.ChainsOpened previous (c :: cs) ∧
      ∀ d ∈ Script.preorder (c :: cs), d.name ≠ requireName ∧ Passes env en d := by
  constructor
  · intro h
    have hnone : ∀ d ∈ Script.preorder (c :: cs), d.name ≠ requireName := by
      intro d hd
      obtain ⟨e, he, rfl | hd⟩ := Script.mem_preorder.1 hd
      · rcases List.mem_cons.1 he with rfl | he
        · exact hn
        · exact fun hd => hn ((List.pairwise_cons.1 h.requireFirst).1 d he hd)
      · exact h.requireTop e he d hd
    have hpasses := h.passes
    rw [required_nil hnone, List.append_nil] at hpasses
    exact ⟨h.chains, fun d hd => ⟨hnone d hd, hpasses d hd⟩⟩
  · rintro ⟨hchains, h⟩
    have hnone : ∀ d ∈ Script.preorder (c :: cs), d.name ≠ requireName := fun d hd => (h d hd).1
    have htop : ∀ d ∈ c :: cs, d.name ≠ requireName := fun d hd =>
      hnone d (Script.mem_preorder.2 ⟨d, hd, .inl rfl⟩)
    refine ⟨?_, fun d hd e he => hnone e (Script.mem_preorder.2 ⟨d, hd, .inr he⟩), hchains, ?_, ?_⟩
    · exact List.pairwise_of_forall_mem_list fun _ _ d hd hreq => absurd hreq (htop d hd)
    · rw [required_nil hnone]; exact nofun
    · rw [required_nil hnone, List.append_nil]
      exact fun d hd => (h d hd).2

end

/-- What is left to walk passes if it obeys the rules, given what has been required. -/
theorem validateSequence_eq_ok_obeysAfter (hrequire : env.commands.lookup requireName = .ok .require) :
    ∀ {cs : List Command} {p : Place} {en : List String}, p.preamble = true →
      ((∃ en', env.validateSequence en p cs = .ok en') ↔ ObeysAfter env en p.previous cs)
  | [], p, en, _ => by
    refine ⟨fun _ => ⟨.nil, nofun, .singleton _, nofun, nofun⟩, fun _ => ⟨en, rfl⟩⟩
  | c :: cs, p, en, hp => by
    simp only [validateSequence_cons_eq_ok]
    -- only a `require` carries on the preamble, and only it adds to what the rest may use
    by_cases hn : c.name = requireName
    · have hafter : (p.after c.name).preamble = true := by simp [Place.after, hp, hn]
      have hcheck : p.check c.name = .ok () := by
        rw [Place.check_eq_ok, hn]
        exact ⟨fun _ => hp, fun h => absurd h (by decide)⟩
      simp only [hcheck, true_and, validateCommand_require hrequire hn]
      constructor
      · rintro ⟨en', en₁, ⟨names, hnames, hall⟩, hcs⟩
        rw [obeysAfter_require hrequire hn hnames hall]
        exact (validateSequence_eq_ok_obeysAfter hrequire hafter).1 ⟨en', hcs⟩
      · intro h
        obtain ⟨kind, haccepts⟩ := (h.passes c (Script.mem_preorder.2 ⟨c, List.mem_cons_self, .inl rfl⟩)).command
        cases hrequire.symm.trans (hn ▸ haccepts.lookup)
        obtain ⟨names, hnames⟩ := verdict_eq_ok.1 haccepts.shape
        obtain ⟨en₁, hall⟩ : ∃ en₁, env.requireAll en names = .ok en₁ := by
          refine requireAll_eq_ok.2 fun name hname => h.available name ?_
          rw [required_cons hn hnames]
          exact List.mem_append_left _ hname
        rw [obeysAfter_require hrequire hn hnames hall] at h
        obtain ⟨en', hcs⟩ := (validateSequence_eq_ok_obeysAfter hrequire hafter).2 h
        exact ⟨en', en₁, ⟨names, hnames, hall⟩, hcs⟩
    · have hafter : (p.after c.name).preamble = false := by simp [Place.after, hn]
      rw [obeysAfter_other hn, chainsOpened_cons, Script.preorder, List.forall_mem_append, Place.check_eq_ok]
      simp only [validateCommand_eq_ok_passes hn, validateSequence_eq_ok_passes hafter]
      constructor
      · rintro ⟨en', ⟨-, hchain⟩, _, ⟨rfl, hc⟩, rfl, hchains, hcs⟩
        exact ⟨⟨hchain, hchains⟩, hc, hcs⟩
      · rintro ⟨⟨hchain, hchains⟩, hc, hcs⟩
        exact ⟨en, ⟨fun h => absurd h hn, hchain⟩, en, ⟨rfl, hc⟩, rfl, hchains, hcs⟩

/-! ## Whole scripts -/

theorem obeys_of_obeysAfter {script : Script} (h : ObeysAfter env [] none script) : env.Obeys script := by
  have htest : ∀ t ∈ Script.tests script, ∃ kind, AcceptsTest env (Script.required script) t kind := by
    intro t ht
    obtain ⟨c, hc, ht⟩ := List.mem_flatMap.1 ht
    exact (h.passes c hc).tests t ht
  refine ⟨h.requireFirst, h.requireTop, fun cs hcs => ?_, fun c hc => ?_, fun t ht => ?_, h.available,
    fun t ht name hname => ?_, fun hstrict c hc kind hlook hext => ?_, fun hstrict t ht kind hlook hext => ?_,
    fun hstrict t ht name hname comparator hlook hext => ?_⟩
  · rcases List.mem_cons.1 hcs with rfl | hcs
    · exact h.chains
    · obtain ⟨c, hc, hblock⟩ := List.mem_filterMap.1 hcs
      exact (h.passes c hc).chains cs hblock
  · obtain ⟨kind, haccepts⟩ := (h.passes c hc).command
    exact ⟨kind, haccepts.lookup, haccepts.shape⟩
  · obtain ⟨kind, haccepts⟩ := htest t ht
    exact ⟨kind, haccepts.lookup, haccepts.shape⟩
  · obtain ⟨_, haccepts⟩ := htest t ht
    obtain ⟨comparator, hc⟩ := haccepts.comparators name hname
    exact ⟨comparator, (comparator_eq_ok.1 hc).1⟩
  · obtain ⟨_, haccepts⟩ := (h.passes c hc).command
    cases hlook.symm.trans haccepts.lookup
    exact checkEnabled_eq_ok.1 haccepts.enabled hstrict hext
  · obtain ⟨_, haccepts⟩ := htest t ht
    cases hlook.symm.trans haccepts.lookup
    exact checkEnabled_eq_ok.1 haccepts.enabled hstrict hext
  · obtain ⟨_, haccepts⟩ := htest t ht
    obtain ⟨_, hc⟩ := haccepts.comparators name hname
    obtain ⟨hlook', henabled⟩ := comparator_eq_ok.1 hc
    cases hlook.symm.trans hlook'
    exact checkEnabled_eq_ok.1 henabled hstrict hext

theorem obeysAfter_of_obeys {script : Script} (h : env.Obeys script) : ObeysAfter env [] none script := by
  refine ⟨h.requireFirst, h.requireTop, h.chains script List.mem_cons_self, h.available, fun c hc => ?_⟩
  have htest : ∀ t ∈ Test.preorder? c.tests, t ∈ Script.tests script := fun t ht =>
    List.mem_flatMap.2 ⟨c, hc, ht⟩
  refine ⟨?_, fun t ht => ?_, fun block hblock => ?_⟩
  · obtain ⟨kind, hlook, hshape⟩ := h.commands c hc
    refine ⟨kind, hlook, hshape, checkEnabled_eq_ok.2 fun hstrict hext => ?_⟩
    exact h.commandsRequired hstrict c hc kind hlook hext
  · obtain ⟨kind, hlook, hshape⟩ := h.tests t (htest t ht)
    refine ⟨kind, hlook, hshape, checkEnabled_eq_ok.2 fun hstrict hext => ?_, fun name hname => ?_⟩
    · exact h.testsRequired hstrict t (htest t ht) kind hlook hext
    · obtain ⟨comparator, hlook⟩ := h.comparators t (htest t ht) name hname
      refine ⟨comparator, comparator_eq_ok.2 ⟨hlook, checkEnabled_eq_ok.2 fun hstrict hext => ?_⟩⟩
      exact h.comparatorsRequired hstrict t (htest t ht) name hname comparator hlook hext
  · exact h.chains block (List.mem_cons_of_mem _ (List.mem_filterMap.2 ⟨c, hc, hblock⟩))

end

/-- Where the commands have their standard names, the static checks accept exactly the
scripts that obey the rules, whatever tests and comparators there are and whether
extensions have to be required or not. -/
theorem validate_eq_ok_iff_obeys (env : Environment) (script : Script)
    (hcommands : env.commands.table = standard.commands.table) :
    env.validate script = .ok () ↔ env.Obeys script := by
  have hrequire : env.commands.lookup requireName = .ok .require := by
    rw [Registry.lookup_eq_ok, Registry.get?, hcommands]
    rfl
  rw [validate, verdict_eq_ok, validateSequence_eq_ok_obeysAfter hrequire rfl]
  exact ⟨obeys_of_obeysAfter, obeysAfter_of_obeys⟩

def withOwnComparator : Environment :=
  { standardWith true with
    comparators := standard.comparators.insert "i;own" { Comparator.octet with isExtension := true } }

def requiresTwice : Script := [
  ⟨"require", [.strings ["fileinto"]], none, none, ⟨1, 1⟩⟩,
  ⟨"require", [.strings ["comparator-i;own"]], none, none, ⟨2, 1⟩⟩,
  ⟨"if", [], some [⟨"not", [], some [
      ⟨"header", [.tag ":comparator", .strings ["i;own"], .strings ["From"], .strings ["a"]], none, ⟨3, 8⟩⟩],
      ⟨3, 4⟩⟩],
    some [⟨"keep", [], none, none, ⟨3, 50⟩⟩], ⟨3, 1⟩⟩,
  ⟨"else", [], none, some [⟨"fileinto", [.strings ["A"]], none, none, ⟨4, 8⟩⟩], ⟨4, 1⟩⟩]

theorem validate_eq_ok_iff_obeys_requiresTwice :
    withOwnComparator.commands.table = standard.commands.table ∧
      withOwnComparator.validate requiresTwice = .ok () ∧ withOwnComparator.Obeys requiresTwice := by
  have hcommands : withOwnComparator.commands.table = standard.commands.table := rfl
  have hok : withOwnComparator.validate requiresTwice = .ok () := by rfl
  exact ⟨hcommands, hok, (validate_eq_ok_iff_obeys withOwnComparator requiresTwice hcommands).1 hok⟩

end Environment

end MailSieve
