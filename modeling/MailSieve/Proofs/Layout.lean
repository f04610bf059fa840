import MailSieve.Proofs.Relocation
import MailSieve.Proofs.Soundness

/-!
# Layout

Moving the positions of a script moves the positions in what checking and running it give,
and changes nothing else, as long as no test is the host's. With the same fact about parsing,
texts that differ in blanks and comments alone do the same.
-/

namespace MailSieve

section
variable {f : Position → Position}

/-! ## Operands -/

@[simp] theorem Test.name_relocate (t : Test) : (t.relocate f).name = t.name := by cases t; rfl

@[simp] theorem Test.arguments_relocate (t : Test) : (t.relocate f).arguments = t.arguments := by
  cases t; rfl

@[simp] theorem Test.tests_relocate (t : Test) : (t.relocate f).tests = relocate? f t.tests := by
  cases t; rfl

@[simp] theorem Test.position_relocate (t : Test) : (t.relocate f).position = f t.position := by
  cases t; rfl

@[simp] theorem Command.name_relocate (c : Command) : (c.relocate f).name = c.name := by cases c; rfl

@[simp] theorem Command.arguments_relocate (c : Command) : (c.relocate f).arguments = c.arguments := by
  cases c; rfl

@[simp] theorem Command.tests_relocate (c : Command) :
    (c.relocate f).tests = Test.relocate? f c.tests := by
  cases c; rfl

@[simp] theorem Command.block_relocate (c : Command) :
    (c.relocate f).block = Script.relocateBlock f c.block := by
  cases c; rfl

@[simp] theorem Command.position_relocate (c : Command) : (c.relocate f).position = f c.position := by
  cases c; rfl

@[simp] theorem Test.isSome_relocate? (tests : Option (List Test)) :
    (relocate? f tests).isSome = tests.isSome := by
  cases tests <;> rfl

@[simp] theorem Test.isNone_relocate? (tests : Option (List Test)) :
    (relocate? f tests).isNone = tests.isNone := by
  cases tests <;> rfl

@[simp] theorem Script.isSome_relocateBlock (block : Option (List Command)) :
    (relocateBlock f block).isSome = block.isSome := by
  cases block <;> rfl

theorem Comparison.ofTest_relocate (t : Test) (takesPart : Bool) (n : Nat) :
    ofTest (t.relocate f) takesPart n = ofTest t takesPart n := by
  simp [ofTest]

theorem Test.presentNames_relocate (t : Test) : (t.relocate f).presentNames = t.presentNames := by
  obtain ⟨name, arguments, tests, p⟩ := t
  cases tests with
  | none => rfl
  | some tests => simp [presentNames, relocate, relocate?]

theorem Test.sizeOperands_relocate (t : Test) : (t.relocate f).sizeOperands = t.sizeOperands := by
  obtain ⟨name, arguments, tests, p⟩ := t
  cases tests with
  | none => rfl
  | some tests => simp [sizeOperands, relocate, relocate?]

theorem Test.bodyKeys_relocate (t : Test) : (t.relocate f).bodyKeys = t.bodyKeys := by
  simp only [bodyKeys, Comparison.ofTest_relocate]

theorem verdict_testList_relocate (t : Test) : verdict (t.relocate f).testList = verdict t.testList := by
  obtain ⟨name, arguments, tests, p⟩ := t
  match arguments, tests with
  | _ :: _, _ => rfl
  | [], none | [], some [] | [], some (_ :: _) => rfl

theorem verdict_negated_relocate (t : Test) : verdict (t.relocate f).negated = verdict t.negated := by
  obtain ⟨name, arguments, tests, p⟩ := t
  match arguments, tests with
  | _ :: _, _ => rfl
  | [], none | [], some [] | [], some [_] => rfl
  | [], some (_ :: _ :: rest) =>
    simp [Test.negated, Test.testList, Test.relocate, Test.relocate?, Test.relocateAll,
      Test.relocateAll_eq_map, verdict]

theorem TestKind.check_relocate {kind : TestKind} (hbuiltin : ∀ test, kind ≠ .host test) (t : Test) :
    kind.check (t.relocate f) = kind.check t := by
  cases kind with
  | host test => exact absurd rfl (hbuiltin test)
  | address | envelope | header => simp only [check, shape, Comparison.ofTest_relocate]
  | allOf | anyOf => simp only [check, shape, verdict_testList_relocate]
  | negation => simp only [check, shape, verdict_negated_relocate]
  | constant value => simp [check, shape, Test.checkBare, Test.isBare]
  | present => simp only [check, shape, Test.presentNames_relocate]
  | size => simp only [check, shape, Test.sizeOperands_relocate]
  | body => simp only [check, shape, Test.bodyKeys_relocate]

theorem Command.conditional_relocate (c : Command) : (c.relocate f).conditional =
    c.conditional.map (Prod.map (Test.relocate f) (Script.relocate f)) := by
  obtain ⟨name, arguments, tests, block, p⟩ := c
  cases block with
  | none => rfl
  | some block =>
    match arguments, tests with
    | _ :: _, _ => rfl
    | [], none | [], some [] | [], some [_] => rfl
    | [], some (_ :: _ :: rest) =>
      simp [conditional, relocate, Test.relocate?, Test.relocateAll, Test.relocateAll_eq_map,
        Script.relocateBlock, Except.map]

theorem Command.requirements_relocate (c : Command) : (c.relocate f).requirements = c.requirements := by
  obtain ⟨name, arguments, tests, block, p⟩ := c
  cases tests with
  | none => simp [requirements, refuseBlock, relocate, Test.relocate?]
  | some tests => simp [requirements, refuseBlock, relocate, Test.relocate?]

theorem Command.operand_relocate (c : Command) (what : String) :
    (c.relocate f).operand what = c.operand what := by
  cases c; rfl

theorem Command.action_relocate (c : Command) (what : String) :
    (c.relocate f).action what = c.action what := by
  simp [action, refuseBlock, refuseTests, operand_relocate]

theorem verdict_map (g : α → β) (x : Except ε α) : verdict (x.map g) = verdict x := by
  cases x <;> rfl

theorem CommandKind.check_relocate (kind : CommandKind) (c : Command) :
    kind.check (c.relocate f) = kind.check c := by
  cases kind with
  | ifThen | elseIf => simp only [check, Command.conditional_relocate, verdict_map]
  | otherwise =>
    obtain ⟨name, arguments, tests, block, p⟩ := c
    cases block with
    | none => rfl
    | some block =>
      simp only [check, Command.alternative, Command.relocate, Script.relocateBlock, Command.isBare,
        Test.isNone_relocate?]
      by_cases hbare : (arguments.isEmpty && tests.isNone) = true
      · simp [hbare, verdict, Except.map]
      · simp [hbare, verdict, Except.map]
  | require => simp only [check, Command.requirements_relocate]
  | stop | keep | discard =>
    simp [check, Command.checkBare, Command.refuseBlock, Command.isBare]
  | redirect => simp only [check, Command.redirectAddress, Command.action_relocate]
  | fileInto | reject => simp only [check, Command.action_relocate]

theorem moved_liftShape (g : α → β) (x : Except ShapeFault α) :
    moved f g (liftShape x) = liftShape (x.map g) := by
  cases x <;> rfl

theorem moved_locate (g : α → β) (x : Except Error α) (p : Position) :
    moved f g (x.mapError (·.locate p)) = (moved f g x).mapError (·.locate (f p)) := by
  cases x with
  | error e => exact congrArg Except.error (e.relocate_locate p)
  | ok a => rfl

end

/-! ## Results without places -/

structure Placeless (x : Except Error α) : Prop where
  moved : ∀ f, moved f id x = x

namespace Placeless

theorem ok (a : α) : Placeless (.ok a) := ⟨fun _ => rfl⟩

theorem bind {x : Except Error α} {k : α → Except Error β} (hx : Placeless x)
    (hk : ∀ a, Placeless (k a)) : Placeless (x >>= k) := by
  constructor
  intro f
  rw [← moved_bind (g := id) fun a => ((hk a).moved f).symm, hx.moved f]

theorem relocate_error {e : Error} (h : Placeless (.error e : Except Error α)) (f : Position → Position) :
    e.relocate f = e :=
  Except.error.inj (h.moved f)

theorem moved_bind {x : Except Error α} {k : α → Except Error β} {k' : α → Except Error β'}
    {h : β → β'} {f : Position → Position} (hx : Placeless x)
    (hk : ∀ a, x = .ok a → k' a = MailSieve.moved f h (k a)) :
    (x >>= k') = MailSieve.moved f h (x >>= k) := by
  cases x with
  | error e => exact congrArg Except.error (hx.relocate_error f).symm
  | ok a => exact hk a rfl

theorem moved_locate {x : Except Error α} (hx : Placeless x) (f : Position → Position) (p : Position) :
    MailSieve.moved f id (x.mapError (·.locate p)) = x.mapError (·.locate (f p)) := by
  rw [MailSieve.moved_locate, hx.moved]

theorem liftShape (x : Except ShapeFault α) : Placeless (liftShape x) := by
  cases x <;> exact ⟨fun _ => rfl⟩

theorem check {kind : TestKind} (hbuiltin : ∀ test, kind ≠ .host test) (t : Test) :
    Placeless (kind.check t) := by
  cases kind with
  | host test => exact absurd rfl (hbuiltin test)
  | _ => exact liftShape _

theorem lookup (r : Registry α) (name : String) : Placeless (r.lookup name) := by
  unfold Registry.lookup
  split <;> exact ⟨fun _ => rfl⟩

theorem checkEnabled (env : Environment) (enabled : List String) (kind : EntryKind) (name : String)
    (isExtension : Bool) : Placeless (env.checkEnabled enabled kind name isExtension) := by
  unfold Environment.checkEnabled
  split <;> exact ⟨fun _ => rfl⟩

theorem comparator (env : Environment) (enabled : List String) (name : String) :
    Placeless (env.comparator enabled name) :=
  (lookup _ _).bind fun _ => (checkEnabled ..).bind fun _ => ok _

theorem validateComparators (env : Environment) (enabled : List String) (names : List String) :
    Placeless (env.validateComparators enabled names) := by
  induction names with
  | nil => exact ok ()
  | cons name names ih => exact (comparator env enabled name).bind fun _ => ih

theorem requireAll (env : Environment) (enabled : List String) (names : List String) :
    Placeless (env.requireAll enabled names) := by
  induction names generalizing enabled with
  | nil => exact ok enabled
  | cons name names ih =>
    unfold Environment.requireAll
    split
    · exact ih _
    · exact ⟨fun _ => rfl⟩

theorem anyRead (read : String → Except MailError α) (found : α → Bool) (names : List String) :
    Placeless (anyRead read found names) := by
  induction names with
  | nil => exact ok false
  | cons name names ih =>
    unfold MailSieve.anyRead
    split
    · exact ⟨fun _ => rfl⟩
    · split
      · exact ok true
      · exact ih

theorem allRead (read : String → Except MailError α) (found : α → Bool) (names : List String) :
    Placeless (allRead read found names) := by
  induction names with
  | nil => exact ok true
  | cons name names ih =>
    unfold MailSieve.allRead
    split
    · exact ⟨fun _ => rfl⟩
    · split
      · exact ih
      · exact ok false

theorem compareRead (env : Environment) (enabled : List String) (t : Test) (takesPart : Bool)
    (read : String → Except MailError (List String)) (parts : AddressPart → String → List String) :
    Placeless (env.compareRead enabled t takesPart read parts) := by
  apply (liftShape _).bind
  intro args
  apply (comparator ..).bind
  intro comparator
  split
  · exact anyRead ..
  · exact ok false

theorem leafValue {kind : TestKind} (hbuiltin : ∀ test, kind ≠ .host test) (env : Environment)
    (enabled : List String) (mail : Mail) (t : Test) : Placeless (env.leafValue enabled mail kind t) := by
  cases kind with
  | constant value => exact ok value
  | header | address | envelope =>
    unfold Environment.leafValue
    exact compareRead ..
  | present => exact (liftShape _).bind fun names => allRead ..
  | size =>
    apply (liftShape _).bind
    rintro ⟨bound, limit⟩
    cases mail.size <;> exact ⟨fun _ => rfl⟩
  | body => exact (liftShape _).bind fun keys => anyRead ..
  | host test => exact absurd rfl (hbuiltin test)
  | anyOf | allOf | negation => exact ok false

end Placeless

/-! ## Static checks -/

namespace Environment

section
variable {env : Environment} {f : Position → Position}

theorem validateCommandUse_relocate (env : Environment) (enabled : List String) (c : Command) :
    env.validateCommandUse enabled (c.relocate f) = moved f id (env.validateCommandUse enabled c) := by
  simp only [validateCommandUse, Command.name_relocate, Command.position_relocate,
    Command.requirements_relocate, CommandKind.check_relocate]
  apply (Placeless.lookup ..).moved_bind
  intro kind _
  rw [← (Placeless.liftShape _).moved_locate]
  apply moved_bind
  intro _
  apply (Placeless.checkEnabled ..).moved_bind
  intro _ _
  split
  · apply (Placeless.liftShape _).moved_bind
    intro names _
    exact ((Placeless.requireAll ..).moved f).symm
  · rfl

theorem validateTestUse_relocate (hfree : env.HostFree) (enabled : List String) (t : Test) :
    env.validateTestUse enabled (t.relocate f) = moved f id (env.validateTestUse enabled t) := by
  simp only [validateTestUse, Test.name_relocate, Test.position_relocate, Test.arguments_relocate]
  apply (Placeless.lookup env.tests t.name).moved_bind
  intro kind hlook
  have hkind : ∀ test, kind ≠ .host test := fun test hk => hfree t.name test (hk ▸ hlook)
  rw [kind.check_relocate hkind, ← (Placeless.check hkind t).moved_locate]
  apply moved_bind
  intro _
  apply (Placeless.checkEnabled ..).moved_bind
  intro _ _
  exact ((Placeless.validateComparators ..).moved f).symm

mutual
theorem validateTest_relocate (hfree : env.HostFree) (enabled : List String) : ∀ t : Test,
    env.validateTest enabled (t.relocate f) = moved f id (env.validateTest enabled t)
  | ⟨name, arguments, tests, p⟩ => by
    have huse := validateTestUse_relocate (f := f) hfree enabled ⟨name, arguments, tests, p⟩
    rw [Test.relocate] at huse ⊢
    rw [validateTest, validateTest, huse]
    apply moved_bind
    intro _
    exact validateTests?_relocate hfree enabled tests

theorem validateTests?_relocate (hfree : env.HostFree) (enabled : List String) : ∀ tests : Option (List Test),
    env.validateTests? enabled (Test.relocate? f tests) = moved f id (env.validateTests? enabled tests)
  | none => rfl
  | some tests => validateTests_relocate hfree enabled tests

theorem validateTests_relocate (hfree : env.HostFree) (enabled : List String) : ∀ tests : List Test,
    env.validateTests enabled (Test.relocateAll f tests) = moved f id (env.validateTests enabled tests)
  | [] => rfl
  | t :: tests => by
    rw [Test.relocateAll, validateTests, validateTests, validateTest_relocate hfree enabled t]
    apply moved_bind
    intro _
    exact validateTests_relocate hfree enabled tests
end

mutual
theorem validateCommand_relocate (hfree : env.HostFree) :
    ∀ (enabled : List String) (c : Command),
    env.validateCommand enabled (c.relocate f) = moved f id (env.validateCommand enabled c)
  | enabled, ⟨name, arguments, tests, block, p⟩ => by
    have huse := validateCommandUse_relocate (f := f) env enabled ⟨name, arguments, tests, block, p⟩
    rw [Command.relocate] at huse ⊢
    rw [validateCommand, validateCommand, huse]
    apply moved_bind
    intro enabled
    simp only [id, validateTests?_relocate hfree]
    apply moved_bind
    intro _
    exact validateBlock?_relocate hfree enabled block

theorem validateBlock?_relocate (hfree : env.HostFree) :
    ∀ (enabled : List String) (block : Option (List Command)),
    env.validateBlock? enabled (Script.relocateBlock f block) = moved f id (env.validateBlock? enabled block)
  | _, none => rfl
  | enabled, some commands => validateSequence_relocate hfree enabled (.start false) commands

theorem validateSequence_relocate (hfree : env.HostFree) :
    ∀ (enabled : List String) (p : Place) (commands : List Command),
    env.validateSequence enabled p (Script.relocate f commands) =
      moved f id (env.validateSequence enabled p commands)
  | _, _, [] => rfl
  | enabled, p, c :: commands => by
    have hplace : (p.check c.name).mapError (fun fault => (Fault.placement fault).errorAt (f c.position)) =
        moved f id ((p.check c.name).mapError fun fault => (Fault.placement fault).errorAt c.position) := by
      cases p.check c.name <;> rfl
    rw [Script.relocate, validateSequence, validateSequence, Command.name_relocate,
      Command.position_relocate, hplace]
    apply moved_bind
    intro _
    rw [validateCommand_relocate hfree enabled c]
    apply moved_bind
    intro enabled
    exact validateSequence_relocate hfree enabled (p.after c.name) commands
end

theorem validate_relocate (hfree : env.HostFree) (script : Script) :
    env.validate (Script.relocate f script) = moved f id (env.validate script) := by
  rw [validate, validate, validateSequence_relocate hfree]
  cases env.validateSequence [] (.start true) script <;> rfl

end

end Environment

/-! ## Computations -/

def Traced.moved (f : Position → Position) (g : α → β) (x : Traced α) : Traced β :=
  ⟨x.reached.map (Test.relocate f), MailSieve.moved f g x.result⟩

namespace Traced

section
variable {f : Position → Position}

theorem moved_bind {g : α → α'} {h : β → β'} {x : Traced α} {k : α → Traced β} {k' : α' → Traced β'}
    (hk : ∀ a, k' (g a) = (k a).moved f h) : (x.moved f g >>= k') = (x >>= k).moved f h := by
  rw [bind_def, bind_def]
  rcases x with ⟨reached, e | a⟩
  · rfl
  · simp [moved, hk]

theorem moved_locate (x : Traced α) (p : Position) : (x.moved f id).locate (f p) = (x.locate p).moved f id := by
  simp only [locate, moved, MailSieve.moved_locate]

theorem ofExcept_moved_bind {x : Except Error α} (hx : Placeless x) {k k' : α → Traced β}
    (hk : ∀ a, x = .ok a → k' a = (k a).moved f id) :
    (ofExcept x >>= k') = (ofExcept x >>= k).moved f id := by
  cases x with
  | error e => exact congrArg (fun e => ofExcept (.error e)) (hx.relocate_error f).symm
  | ok a => exact hk a rfl

end

end Traced

def Exec.moved (f : Position → Position) (g : α → β) (x : Exec α) : Exec β := fun ctx =>
  ⟨(x ctx).context, (x ctx).reached.map (Test.relocate f), MailSieve.moved f g (x ctx).result⟩

namespace Exec

section
variable {f : Position → Position}

theorem moved_bind {g : α → α'} {h : β → β'} {x : Exec α} {k : α → Exec β} {k' : α' → Exec β'}
    (hk : ∀ a, k' (g a) = (k a).moved f h) : (x.moved f g >>= k') = (x >>= k).moved f h := by
  funext ctx
  simp only [bind_apply, moved]
  rcases x ctx with ⟨ctx', reached, e | a⟩
  · rfl
  · simp [hk, moved]

theorem moved_locate (x : Exec α) (p : Position) : (x.moved f id).locate (f p) = (x.locate p).moved f id := by
  funext ctx
  simp only [locate, moved, MailSieve.moved_locate]

theorem moved_block (x : Exec α) : block (x.moved f id) = (block x).moved f id := rfl

theorem moved_ofTraced (x : Traced α) : ofTraced (x.moved f id) = (ofTraced x).moved f id := rfl

end

/-- What the computation leaves carries no place, whatever the context. -/
structure Placeless (x : Exec α) : Prop where
  moved : ∀ f, x.moved f id = x

namespace Placeless

theorem ofExcept {x : Except Error α} (hx : MailSieve.Placeless x) : Placeless (ofExcept x) := by
  constructor
  intro f
  funext ctx
  simp [Exec.moved, hx.moved f]

theorem liftShape {α : Type} (x : Except ShapeFault α) :
    Placeless (Exec.ofExcept (MailSieve.liftShape x)) :=
  ofExcept (.liftShape x)

theorem pure (a : α) : Placeless (pure a) := ofExcept (.ok a)

theorem get : Placeless get := ⟨fun _ => rfl⟩

theorem modify (g : Context → Context) : Placeless (modify g) := ⟨fun _ => rfl⟩

theorem addAction (a : Action) : Placeless (addAction a) := by
  constructor
  intro f
  funext ctx
  simp only [Exec.moved, Exec.addAction]
  split <;> rfl

theorem moved_bind {x : Exec α} {k : α → Exec β} {k' : α → Exec β'} {h : β → β'}
    {f : Position → Position} (hx : Placeless x) (hk : ∀ a, k' a = (k a).moved f h) :
    (x >>= k') = (x >>= k).moved f h := by
  rw [← Exec.moved_bind (g := id) hk, hx.moved]

theorem bind {x : Exec α} {k : α → Exec β} (hx : Placeless x) (hk : ∀ a, Placeless (k a)) :
    Placeless (x >>= k) := by
  constructor
  intro f
  exact (hx.moved_bind fun a => ((hk a).moved f).symm).symm

end Placeless

end Exec

/-! ## Runs -/

namespace Environment

theorem leafValue_relocate {kind : TestKind} (hbuiltin : ∀ test, kind ≠ .host test) (env : Environment)
    (enabled : List String) (mail : Mail) (f : Position → Position) (t : Test) :
    env.leafValue enabled mail kind (t.relocate f) = env.leafValue enabled mail kind t := by
  cases kind with
  | constant value => rfl
  | header | address | envelope => simp only [leafValue, compareRead, Comparison.ofTest_relocate]
  | present => simp only [leafValue, Test.presentNames_relocate]
  | size => simp only [leafValue, Test.sizeOperands_relocate]
  | body => simp only [leafValue, Test.bodyKeys_relocate]
  | host test => exact absurd rfl (hbuiltin test)
  | anyOf | allOf | negation => rfl

section
variable {env : Environment} {f : Position → Position}

theorem leaf_relocate {kind : TestKind} (hbuiltin : ∀ test, kind ≠ .host test) (enabled : List String)
    (mail : Mail) (t : Test) :
    (⟨reachedLeaf kind (t.relocate f), env.leafValue enabled mail kind (t.relocate f)⟩ : Traced Bool) =
      Traced.moved f id ⟨reachedLeaf kind t, env.leafValue enabled mail kind t⟩ := by
  have hreached : ∀ t, reachedLeaf kind t = [] := by
    intro t
    cases kind with
    | host test => exact absurd rfl (hbuiltin test)
    | _ => rfl
  rw [leafValue_relocate hbuiltin, hreached, hreached]
  simp [Traced.moved, (Placeless.leafValue hbuiltin env enabled mail t).moved f]

mutual
theorem evaluate_relocate (hfree : env.HostFree) (enabled : List String) (mail : Mail) : ∀ t : Test,
    env.evaluate enabled mail (t.relocate f) = (env.evaluate enabled mail t).moved f id
  | ⟨name, arguments, tests, p⟩ => by
    rw [evaluate_eq, evaluate_eq, ← Traced.moved_locate, Test.position_relocate]
    simp only [Test.name_relocate]
    congr 1
    apply Traced.ofExcept_moved_bind (Placeless.lookup ..)
    intro kind hlook
    have hkind : ∀ test, kind ≠ .host test := fun test hk => hfree name test (hk ▸ hlook)
    rw [kind.check_relocate hkind]
    apply Traced.ofExcept_moved_bind (Placeless.check hkind _)
    intro _ _
    apply Traced.ofExcept_moved_bind (Placeless.checkEnabled ..)
    intro _ _
    have htests := fun decisive => evaluateUntil?_relocate hfree enabled mail decisive tests
    cases kind with
    | anyOf => exact htests true
    | allOf => exact htests false
    | negation =>
      simp only [valueOf, Test.relocate, htests]
      apply Traced.moved_bind
      intro b
      rfl
    | _ => exact leaf_relocate hkind enabled mail ⟨name, arguments, tests, p⟩

theorem evaluateUntil?_relocate (hfree : env.HostFree) (enabled : List String) (mail : Mail)
    (decisive : Bool) : ∀ tests : Option (List Test),
    env.evaluateUntil? enabled mail decisive (Test.relocate? f tests) =
      (env.evaluateUntil? enabled mail decisive tests).moved f id
  | none => rfl
  | some tests => evaluateUntil_relocate hfree enabled mail decisive tests

theorem evaluateUntil_relocate (hfree : env.HostFree) (enabled : List String) (mail : Mail)
    (decisive : Bool) : ∀ tests : List Test,
    env.evaluateUntil enabled mail decisive (Test.relocateAll f tests) =
      (env.evaluateUntil enabled mail decisive tests).moved f id
  | [] => rfl
  | t :: tests => by
    rw [Test.relocateAll, evaluateUntil, evaluateUntil, evaluate_relocate hfree enabled mail t]
    apply Traced.moved_bind
    intro b
    by_cases hb : b = decisive
    · simp only [id, hb, if_true]
      rfl
    · simp only [id, hb, if_false]
      exact evaluateUntil_relocate hfree enabled mail decisive tests
end

theorem enableAll_placeless (env : Environment) (names : List String) :
    (env.enableAll names).Placeless := by
  induction names with
  | nil => exact .pure ()
  | cons name names ih =>
    unfold enableAll
    split
    · exact (Exec.Placeless.modify _).bind fun _ => ih
    · exact .ofExcept ⟨fun _ => rfl⟩

theorem fileInto_placeless (mailbox : String) : (fileInto mailbox).Placeless := by
  apply Exec.Placeless.get.bind
  intro ctx
  split
  · exact .pure ()
  · exact .addAction _

theorem runSimple_placeless (env : Environment) (kind : CommandKind) (c : Command) :
    (env.runSimple kind c).Placeless := by
  cases kind with
  | keep | discard => exact (Exec.Placeless.addAction _).bind fun _ => .pure _
  | redirect | reject =>
    exact (Exec.Placeless.liftShape _).bind fun _ => (Exec.Placeless.addAction _).bind fun _ => .pure _
  | fileInto => exact (Exec.Placeless.liftShape _).bind fun _ => (fileInto_placeless _).bind fun _ => .pure _
  | require => exact (Exec.Placeless.liftShape _).bind fun _ => (enableAll_placeless env _).bind fun _ => .pure _
  | stop | ifThen | elseIf | otherwise => exact .pure _

theorem runSimple_relocate (env : Environment) (kind : CommandKind) (c : Command) :
    env.runSimple kind (c.relocate f) = (env.runSimple kind c).moved f id := by
  rw [(env.runSimple_placeless kind c).moved f]
  simp only [runSimple, Command.operand_relocate, Command.requirements_relocate]

theorem testOf_relocate (hfree : env.HostFree) (mail : Mail) (c : Command) :
    env.testOf mail (c.relocate f) = (env.testOf mail c).moved f id := by
  have hoperand : Exec.ofExcept (liftShape (c.relocate f).conditional) =
      (Exec.ofExcept (liftShape c.conditional)).moved f (Prod.map (Test.relocate f) (Script.relocate f)) := by
    rw [Command.conditional_relocate, ← moved_liftShape]
    rfl
  simp only [testOf, hoperand]
  apply Exec.moved_bind
  rintro ⟨t, block⟩
  apply Exec.Placeless.get.moved_bind
  intro ctx
  simp only [Prod.map, evaluate_relocate hfree, Exec.moved_ofTraced]

theorem choose_relocate (hfree : env.HostFree) (mail : Mail) (kind : CommandKind) (c : Command) :
    env.choose mail kind (c.relocate f) = (env.choose mail kind c).moved f id := by
  apply Exec.Placeless.get.moved_bind
  intro ctx
  rw [testOf_relocate hfree]
  have hasked : ((env.testOf mail c).moved f id >>= fun b => pure (if b then Decision.run else .skip .pending)) =
      (env.testOf mail c >>= fun b => pure (if b then Decision.run else .skip .pending)).moved f id := by
    apply Exec.moved_bind
    intro b
    rfl
  split
  · exact hasked
  · exact hasked
  all_goals rfl

theorem perform_relocate (hfree : env.HostFree) (mail : Mail) (kind : CommandKind) {c : Command}
    (hblock : env.runBlock? mail (c.relocate f).block = (env.runBlock? mail c.block).moved f id) :
    env.perform mail kind (c.relocate f) = (env.perform mail kind c).moved f id := by
  cases kind with
  | ifThen | elseIf | otherwise =>
    simp only [perform, choose_relocate hfree]
    apply Exec.moved_bind
    intro decision
    cases decision with
    | skip branch => rfl
    | run =>
      simp only [id, hblock, Exec.moved_block]
      apply Exec.moved_bind
      intro flow
      rfl
  | _ =>
    unfold perform
    exact runSimple_relocate ..

mutual
theorem runCommand_relocate (hfree : env.HostFree) (mail : Mail) : ∀ c : Command,
    env.runCommand mail (c.relocate f) = (env.runCommand mail c).moved f id
  | ⟨name, arguments, tests, block, p⟩ => by
    rw [runCommand_eq, runCommand_eq, ← Exec.moved_locate, Command.position_relocate]
    simp only [Command.name_relocate, CommandKind.check_relocate]
    congr 1
    apply (Exec.Placeless.modify _).moved_bind
    intro _
    apply (Exec.Placeless.ofExcept (.lookup ..)).moved_bind
    intro kind
    apply (Exec.Placeless.liftShape _).moved_bind
    intro _
    apply Exec.Placeless.get.moved_bind
    intro ctx
    apply (Exec.Placeless.ofExcept (.checkEnabled ..)).moved_bind
    intro _
    exact perform_relocate hfree mail kind (runBlock?_relocate hfree mail block)

theorem runBlock?_relocate (hfree : env.HostFree) (mail : Mail) : ∀ block : Option (List Command),
    env.runBlock? mail (Script.relocateBlock f block) = (env.runBlock? mail block).moved f id
  | none => rfl
  | some commands => runCommands_relocate hfree mail commands

theorem runCommands_relocate (hfree : env.HostFree) (mail : Mail) : ∀ commands : List Command,
    env.runCommands mail (Script.relocate f commands) = (env.runCommands mail commands).moved f id
  | [] => rfl
  | c :: commands => by
    rw [Script.relocate, runCommands_cons, runCommands_cons, runCommand_relocate hfree mail c]
    apply Exec.moved_bind
    intro flow
    cases flow with
    | stop => rfl
    | next => exact runCommands_relocate hfree mail commands
end

end

end Environment

/-! ## Texts -/

def Execution.relocate (f : Position → Position) (x : Execution) : Execution :=
  ⟨x.actions, x.reached.map (Test.relocate f), moved f id x.result⟩

def Error.unplaced (e : Error) : Error :=
  e.relocate fun _ => .unknown

/-- The same actions, and the same end up to the place of an error. -/
def Execution.Alike (x y : Execution) : Prop :=
  x.actions = y.actions ∧
    match x.result, y.result with
    | .ok flow, .ok flow' => flow = flow'
    | .error e, .error e' => e.unplaced = e'.unplaced
    | _, _ => False

theorem Execution.alike_of_relocate_eq {x y : Execution}
    (h : x.relocate (fun _ => .unknown) = y.relocate fun _ => .unknown) : x.Alike y := by
  obtain ⟨actions, reached, result⟩ := x
  obtain ⟨actions', reached', result'⟩ := y
  simp only [relocate, Execution.mk.injEq] at h
  refine ⟨h.1, ?_⟩
  cases result with
  | ok flow =>
    cases result' with
    | ok flow' => exact Except.ok.inj h.2.2
    | error e' => cases h.2.2
  | error e =>
    cases result' with
    | ok flow' => cases h.2.2
    | error e' => exact Except.error.inj h.2.2

namespace Environment

theorem execute_relocate {env : Environment} (hfree : env.HostFree) (f : Position → Position)
    (script : Script) (mail : Mail) :
    env.execute (Script.relocate f script) mail = (env.execute script mail).relocate f := by
  simp only [execute, validate_relocate hfree, runCommands_relocate hfree]
  cases env.validate script <;> rfl

def executeRead (env : Environment) (mail : Mail) : Except Error Script → Execution
  | .error e => ⟨[], [], .error e⟩
  | .ok script => env.execute script mail

theorem executeRead_moved {env : Environment} (hfree : env.HostFree) (f : Position → Position)
    (mail : Mail) (x : Except Error Script) :
    env.executeRead mail (moved f (Script.relocate f) x) = (env.executeRead mail x).relocate f := by
  cases x with
  | error e => rfl
  | ok script => exact execute_relocate hfree f script mail

theorem interpret_of_tokenize {env : Environment} {text : String} {ts : List PlacedToken}
    (h : tokenize text = .ok ts) (mail : Mail) :
    env.interpret text mail = env.executeRead mail (Script.ofTokens (withoutComments ts)) := by
  rw [interpret, Script.compile_of_tokenize h]
  rfl

/-- Texts whose tokens agree but for comments and places do the same to every message. -/
theorem interpret_alike {env : Environment} (hfree : env.HostFree) {text text' : String}
    {ts ts' : List PlacedToken} (h : tokenize text = .ok ts) (h' : tokenize text' = .ok ts')
    (hsame : (withoutComments ts).map PlacedToken.token = (withoutComments ts').map PlacedToken.token)
    (mail : Mail) : (env.interpret text mail).Alike (env.interpret text' mail) := by
  have hmoved : ∀ ts : List PlacedToken, ts.map (PlacedToken.relocate fun _ => .unknown) =
      (ts.map PlacedToken.token).map fun token => ⟨token, .unknown⟩ := by
    intro ts
    simp [PlacedToken.relocate]
  apply Execution.alike_of_relocate_eq
  rw [interpret_of_tokenize h, interpret_of_tokenize h', ← executeRead_moved hfree,
    ← executeRead_moved hfree, ← Script.ofTokens_relocate, ← Script.ofTokens_relocate, hmoved, hmoved, hsame]

def squeezed : String := "keep;reject\"no\";"

def spread : String := "keep; # first\n reject /* then */\n\t\"no\" ;"

def squeezedTokens : List PlacedToken := [
  ⟨.identifier "keep", ⟨1, 1⟩⟩, ⟨.punct .semicolon, ⟨1, 5⟩⟩, ⟨.identifier "reject", ⟨1, 6⟩⟩,
  ⟨.quoted "\"no\"", ⟨1, 12⟩⟩, ⟨.punct .semicolon, ⟨1, 16⟩⟩]

def spreadTokens : List PlacedToken := [
  ⟨.identifier "keep", ⟨1, 1⟩⟩, ⟨.punct .semicolon, ⟨1, 5⟩⟩, ⟨.comment "first", ⟨1, 7⟩⟩,
  ⟨.identifier "reject", ⟨2, 2⟩⟩, ⟨.blockComment "then", ⟨2, 9⟩⟩, ⟨.quoted "\"no\"", ⟨3, 2⟩⟩,
  ⟨.punct .semicolon, ⟨3, 7⟩⟩]

theorem interpret_alike_spread :
    tokenize squeezed = .ok squeezedTokens ∧ tokenize spread = .ok spreadTokens ∧
      ((standardWith false).interpret squeezed plainMail).result =
        .error (.command .rejectNotAlone (some ⟨1, 6⟩)) ∧
      ((standardWith false).interpret spread plainMail).result =
        .error (.command .rejectNotAlone (some ⟨2, 2⟩)) ∧
      ((standardWith false).interpret squeezed plainMail).Alike
        ((standardWith false).interpret spread plainMail) := by
  have hsqueezed : tokenize squeezed = .ok squeezedTokens := by cbv
  have hspread : tokenize spread = .ok spreadTokens := by cbv
  have hfree : (standardWith false).HostFree := fun _ _ => standard_tests_not_host
  refine ⟨hsqueezed, hspread, ?_, ?_, interpret_alike hfree hsqueezed hspread rfl plainMail⟩
  · rw [interpret_of_tokenize hsqueezed]
    rfl
  · rw [interpret_of_tokenize hspread]
    rfl

end Environment

end MailSieve
