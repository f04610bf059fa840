import MailSieve.Proofs.Reading

/-!
# Positions

What tokens stand for depends on their positions only where it holds positions itself.
-/

namespace MailSieve

/-! ## Scripts without their positions -/

mutual
def Test.unplaced : Test → Test
  | ⟨name, arguments, tests, _⟩ => ⟨name, arguments, unplaced? tests, .unknown⟩
def Test.unplaced? : Option (List Test) → Option (List Test)
  | none => none
  | some tests => some (unplacedAll tests)
def Test.unplacedAll : List Test → List Test
  | [] => []
  | t :: tests => t.unplaced :: unplacedAll tests
end

mutual
def Command.unplaced : Command → Command
  | ⟨name, arguments, tests, block, _⟩ =>
    ⟨name, arguments, Test.unplaced? tests, Script.unplacedBlock block, .unknown⟩
def Script.unplacedBlock : Option (List Command) → Option (List Command)
  | none => none
  | some commands => some (Script.unplaced commands)
/-- The script with no position known. Scripts that differ in positions only are the
same without them. -/
def Script.unplaced : List Command → List Command
  | [] => []
  | c :: commands => c.unplaced :: Script.unplaced commands
end

mutual
theorem Test.nesting_unplaced : ∀ t : Test, t.unplaced.nesting = t.nesting
  | ⟨name, arguments, tests, p⟩ => by rw [unplaced, nesting, nesting, nesting?_unplaced tests]

theorem Test.nesting?_unplaced : ∀ tests, nesting? (unplaced? tests) = nesting? tests
  | none => rfl
  | some tests => by rw [unplaced?, nesting?, nesting?, nestingAll_unplaced tests]

theorem Test.nestingAll_unplaced : ∀ tests, nestingAll (unplacedAll tests) = nestingAll tests
  | [] => rfl
  | t :: tests => by
    rw [unplacedAll, nestingAll, nestingAll, nesting_unplaced t, nestingAll_unplaced tests]
end

mutual
theorem Command.nesting_unplaced : ∀ c : Command, c.unplaced.nesting = c.nesting
  | ⟨name, arguments, tests, block, p⟩ => by
    rw [Command.unplaced, Command.nesting, Command.nesting, Test.nesting?_unplaced,
      Script.blockNesting_unplaced block]

theorem Script.blockNesting_unplaced : ∀ block,
    Script.blockNesting (Script.unplacedBlock block) = Script.blockNesting block
  | none => rfl
  | some commands => by
    rw [Script.unplacedBlock, Script.blockNesting, Script.blockNesting, Script.nesting_unplaced commands]

theorem Script.nesting_unplaced : ∀ commands,
    Script.nesting (Script.unplaced commands) = Script.nesting commands
  | [] => rfl
  | c :: commands => by
    rw [Script.unplaced, Script.nesting, Script.nesting, c.nesting_unplaced, Script.nesting_unplaced commands]
end

mutual
theorem Test.unplaced_unplaced : ∀ t : Test, t.unplaced.unplaced = t.unplaced
  | ⟨name, arguments, tests, p⟩ => by rw [unplaced, unplaced, unplaced?_unplaced? tests]

theorem Test.unplaced?_unplaced? : ∀ tests, unplaced? (unplaced? tests) = unplaced? tests
  | none => rfl
  | some tests => by rw [unplaced?, unplaced?, unplacedAll_unplacedAll tests]

theorem Test.unplacedAll_unplacedAll : ∀ tests, unplacedAll (unplacedAll tests) = unplacedAll tests
  | [] => rfl
  | t :: tests => by rw [unplacedAll, unplacedAll, unplaced_unplaced t, unplacedAll_unplacedAll tests]
end

mutual
theorem Command.unplaced_unplaced : ∀ c : Command, c.unplaced.unplaced = c.unplaced
  | ⟨name, arguments, tests, block, p⟩ => by
    rw [Command.unplaced, Command.unplaced, Test.unplaced?_unplaced?, Script.unplacedBlock_unplacedBlock block]

theorem Script.unplacedBlock_unplacedBlock : ∀ block,
    Script.unplacedBlock (Script.unplacedBlock block) = Script.unplacedBlock block
  | none => rfl
  | some commands => by
    rw [Script.unplacedBlock, Script.unplacedBlock, Script.unplaced_unplaced commands]

theorem Script.unplaced_unplaced : ∀ commands, Script.unplaced (Script.unplaced commands) = Script.unplaced commands
  | [] => rfl
  | c :: commands => by
    rw [Script.unplaced, Script.unplaced, c.unplaced_unplaced, Script.unplaced_unplaced commands]
end

theorem Script.nesting_eq_of_unplaced {s s' : List Command} (h : unplaced s = unplaced s') :
    Script.nesting s = Script.nesting s' := by
  rw [← Script.nesting_unplaced s, h, Script.nesting_unplaced]

/-! ## Tokens at other positions -/

inductive SameTokens : List PlacedToken → List PlacedToken → Prop
  | nil : SameTokens [] []
  | cons {token p p' ts ts'} (h : SameTokens ts ts') : SameTokens (⟨token, p⟩ :: ts) (⟨token, p'⟩ :: ts')

theorem sameTokens_of_map_eq : ∀ {ts ts' : List PlacedToken},
    ts.map PlacedToken.token = ts'.map PlacedToken.token → SameTokens ts ts'
  | [], [], _ => .nil
  | ⟨_, _⟩ :: _, ⟨_, _⟩ :: _, h => by
    obtain ⟨rfl, htail⟩ := List.cons.inj h
    exact .cons (sameTokens_of_map_eq htail)

section
variable {ts ts' us : List PlacedToken}

theorem ReadsString.move {text : String} (h : ReadsString ts text us) (hts : SameTokens ts ts') :
    ∃ us', SameTokens us us' ∧ ReadsString ts' text us' := by
  cases h with
  | quoted h =>
    cases hts with
    | cons hts => exact ⟨_, hts, .quoted h⟩
  | multiline h =>
    cases hts with
    | cons hts => exact ⟨_, hts, .multiline h⟩

theorem ReadsStrings.move {items : List String} (h : ReadsStrings ts items us) (hts : SameTokens ts ts') :
    ∃ us', SameTokens us us' ∧ ReadsStrings ts' items us' := by
  induction h generalizing ts' with
  | one h =>
    obtain ⟨us', hus, h⟩ := h.move hts
    exact ⟨us', hus, .one h⟩
  | more h _ ih =>
    have ⟨_, .cons hus, h⟩ := h.move hts
    obtain ⟨vs', hvs, hs⟩ := ih hus
    exact ⟨vs', hvs, .more h hs⟩

theorem ReadsArgument.move {a : Argument} (h : ReadsArgument ts a us) (hts : SameTokens ts ts') :
    ∃ us', SameTokens us us' ∧ ReadsArgument ts' a us' := by
  cases h with
  | string h =>
    obtain ⟨us', hus, h⟩ := h.move hts
    exact ⟨us', hus, .string h⟩
  | number h =>
    cases hts with
    | cons hts => exact ⟨_, hts, .number h⟩
  | tag =>
    cases hts with
    | cons hts => exact ⟨_, hts, .tag⟩
  | stringList hs =>
    cases hts with
    | cons hts =>
      have ⟨_, .cons hus, hs⟩ := hs.move hts
      exact ⟨_, hus, .stringList hs⟩

theorem ReadsPlain.move {as : List Argument} (h : ReadsPlain ts as us) (hts : SameTokens ts ts') :
    ∃ us', SameTokens us us' ∧ ReadsPlain ts' as us' := by
  induction h generalizing ts' with
  | nil => exact ⟨ts', hts, .nil⟩
  | cons h _ ih =>
    obtain ⟨us', hus, h⟩ := h.move hts
    obtain ⟨vs', hvs, hs⟩ := ih hus
    exact ⟨vs', hvs, .cons h hs⟩

end

mutual
theorem ReadsArguments.move {ts ts' us : List PlacedToken} {as : List Argument} {tests : Option (List Test)}
    (h : ReadsArguments ts as tests us) (hts : SameTokens ts ts') :
    ∃ us' tests', SameTokens us us' ∧ ReadsArguments ts' as tests' us' ∧
      Test.unplaced? tests' = Test.unplaced? tests := by
  match h with
  | .arguments hp hl =>
    obtain ⟨us', hus, hp⟩ := hp.move hts
    obtain ⟨vs', tests', hvs, hl, heq⟩ := hl.move hus
    exact ⟨vs', tests', hvs, .arguments hp hl, heq⟩
termination_by structural h

theorem ReadsLast.move {ts ts' us : List PlacedToken} {tests : Option (List Test)} (h : ReadsLast ts tests us)
    (hts : SameTokens ts ts') :
    ∃ us' tests', SameTokens us us' ∧ ReadsLast ts' tests' us' ∧ Test.unplaced? tests' = Test.unplaced? tests := by
  match h with
  | .none => exact ⟨ts', none, hts, .none, rfl⟩
  | .test h =>
    obtain ⟨us', t', hus, h, heq⟩ := h.move hts
    refine ⟨us', some [t'], hus, .test h, ?_⟩
    simp only [Test.unplaced?, Test.unplacedAll, heq]
  | .testList hs =>
    cases hts with
    | cons hts =>
      have ⟨_, tests', .cons hus, hs, heq⟩ := hs.move hts
      exact ⟨_, some tests', hus, .testList hs, by rw [Test.unplaced?, Test.unplaced?, heq]⟩
termination_by structural h

theorem ReadsTest.move {ts ts' us : List PlacedToken} {t : Test} (h : ReadsTest ts t us)
    (hts : SameTokens ts ts') :
    ∃ us' t', SameTokens us us' ∧ ReadsTest ts' t' us' ∧ t'.unplaced = t.unplaced := by
  match h with
  | .test h =>
    cases hts with
    | cons hts =>
      obtain ⟨us', tests', hus, h, heq⟩ := h.move hts
      exact ⟨us', _, hus, .test h, by rw [Test.unplaced, Test.unplaced, heq]⟩
termination_by structural h

theorem ReadsTests.move {ts ts' us : List PlacedToken} {tests : List Test} (h : ReadsTests ts tests us)
    (hts : SameTokens ts ts') :
    ∃ us' tests', SameTokens us us' ∧ ReadsTests ts' tests' us' ∧
      Test.unplacedAll tests' = Test.unplacedAll tests := by
  match h with
  | .one h =>
    obtain ⟨us', t', hus, h, heq⟩ := h.move hts
    exact ⟨us', [t'], hus, .one h, by simp only [Test.unplacedAll, heq]⟩
  | .more h hs =>
    have ⟨_, t', .cons hus, h, heq⟩ := h.move hts
    obtain ⟨vs', tests', hvs, hs, heqs⟩ := hs.move hus
    exact ⟨vs', t' :: tests', hvs, .more h hs, by rw [Test.unplacedAll, Test.unplacedAll, heq, heqs]⟩
termination_by structural h
end

mutual
theorem ReadsCommands.move {ts ts' us : List PlacedToken} {commands : List Command}
    (h : ReadsCommands ts commands us) (hts : SameTokens ts ts') :
    ∃ us' commands', SameTokens us us' ∧ ReadsCommands ts' commands' us' ∧
      Script.unplaced commands' = Script.unplaced commands := by
  match h with
  | .nil => exact ⟨ts', [], hts, .nil, rfl⟩
  | .cons h hs =>
    obtain ⟨us', c', hus, h, heq⟩ := h.move hts
    obtain ⟨vs', commands', hvs, hs, heqs⟩ := hs.move hus
    exact ⟨vs', c' :: commands', hvs, .cons h hs, by rw [Script.unplaced, Script.unplaced, heq, heqs]⟩
termination_by structural h

theorem ReadsCommand.move {ts ts' us : List PlacedToken} {c : Command} (h : ReadsCommand ts c us)
    (hts : SameTokens ts ts') :
    ∃ us' c', SameTokens us us' ∧ ReadsCommand ts' c' us' ∧ c'.unplaced = c.unplaced := by
  match h with
  | .simple h =>
    cases hts with
    | cons hts =>
      have ⟨_, tests', .cons hus, h, heq⟩ := h.move hts
      exact ⟨_, _, hus, .simple h, by rw [Command.unplaced, Command.unplaced, heq]⟩
  | .block h hs =>
    cases hts with
    | cons hts =>
      have ⟨_, tests', .cons hus, h, heq⟩ := h.move hts
      have ⟨_, commands', .cons hvs, hs, heqs⟩ := hs.move hus
      refine ⟨_, _, hvs, .block h hs, ?_⟩
      rw [Command.unplaced, Command.unplaced, heq, Script.unplacedBlock, Script.unplacedBlock, heqs]
termination_by structural h
end

end MailSieve
