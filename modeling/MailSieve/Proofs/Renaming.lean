import MailSieve.Proofs.Evaluation

/-!
# Renamed scripts

A script in which some names have been replaced, and what its operands make of that: they are
read alike, since a name only gets into the text of a fault. Results are compared up to such
texts.
-/

namespace MailSieve

/-! ## Renamed scripts -/

mutual
/-- The same test, but for names inside it that `names` relates. -/
inductive Test.Renames (names : String → String → Prop) : Test → Test → Prop
  | mk {name name' arguments tests tests' position} (hname : names name name')
      (htests : Test.Renames? names tests tests') :
      Test.Renames names ⟨name, arguments, tests, position⟩ ⟨name', arguments, tests', position⟩
inductive Test.Renames? (names : String → String → Prop) : Option (List Test) → Option (List Test) → Prop
  | none : Test.Renames? names none none
  | some {ts ts'} (h : Test.RenamesAll names ts ts') : Test.Renames? names (some ts) (some ts')
inductive Test.RenamesAll (names : String → String → Prop) : List Test → List Test → Prop
  | nil : Test.RenamesAll names [] []
  | cons {t t' ts ts'} (h : Test.Renames names t t') (hs : Test.RenamesAll names ts ts') :
      Test.RenamesAll names (t :: ts) (t' :: ts')
end

mutual
inductive Command.Renames (commands tests : String → String → Prop) : Command → Command → Prop
  | mk {name name' arguments ts ts' block block' position} (hname : commands name name')
      (htests : Test.Renames? tests ts ts') (hblock : Script.Renames? commands tests block block') :
      Command.Renames commands tests ⟨name, arguments, ts, block, position⟩
        ⟨name', arguments, ts', block', position⟩
inductive Script.Renames? (commands tests : String → String → Prop) : Option Script → Option Script → Prop
  | none : Script.Renames? commands tests none none
  | some {cs cs'} (h : Script.Renames commands tests cs cs') : Script.Renames? commands tests (some cs) (some cs')
inductive Script.Renames (commands tests : String → String → Prop) : Script → Script → Prop
  | nil : Script.Renames commands tests [] []
  | cons {c c' cs cs'} (h : Command.Renames commands tests c c') (hs : Script.Renames commands tests cs cs') :
      Script.Renames commands tests (c :: cs) (c' :: cs')
end

/-- An occurrence of a name: it is kept, or `n` is replaced by `n'`. -/
def Swaps (n n' : String) (a b : String) : Prop := b = a ∨ a = n ∧ b = n'

/-! ## Results up to wording -/

/-- Errors that differ in the wording of a fault at most. -/
inductive Error.Alike : Error → Error → Prop
  | refl (e : Error) : Alike e e
  | wording (f f' : Fault) (p : Option Position) : Alike (.illFormed f p) (.illFormed f' p)

inductive Alike : Except Error α → Except Error α → Prop
  | ok (a : α) : Alike (.ok a) (.ok a)
  | error {e e' : Error} (h : e.Alike e') : Alike (.error e) (.error e')

theorem Error.Alike.locate {e e' : Error} (h : e.Alike e') (p : Position) : (e.locate p).Alike (e'.locate p) := by
  cases h with
  | refl => exact .refl _
  | wording f f' q => exact .wording f f' _

namespace Alike

@[refl] theorem refl (x : Except Error α) : Alike x x := by
  cases x with
  | ok a => exact .ok a
  | error e => exact .error (.refl e)

theorem bind {x y : Except Error α} {f g : α → Except Error β} (h : Alike x y)
    (hf : ∀ a, x = .ok a → Alike (f a) (g a)) : Alike (x >>= f) (y >>= g) := by
  cases h with
  | ok a => exact hf a rfl
  | error he => exact .error he

theorem locate {x y : Except Error α} (h : Alike x y) (p : Position) :
    Alike (x.mapError (·.locate p)) (y.mapError (·.locate p)) := by
  cases h with
  | ok a => exact .ok a
  | error he => exact .error (he.locate p)

theorem map {x y : Except Error α} (h : Alike x y) (f : α → β) : Alike (x.map f) (y.map f) := by
  cases h with
  | ok a => exact .ok (f a)
  | error he => exact .error he

theorem eq_ok_iff {x y : Except Error α} (h : Alike x y) {a : α} : x = .ok a ↔ y = .ok a := by
  cases h with
  | ok b => exact Iff.rfl
  | error he => simp

/-- Where reading operands succeeds alike, only the wording of a fault can differ. -/
theorem of_shape {x y : Except ShapeFault α} (h : x.toOption = y.toOption) : Alike (liftShape x) (liftShape y) := by
  cases x with
  | ok a =>
    cases y with
    | ok b =>
      cases h
      exact .ok a
    | error f => cases h
  | error f =>
    cases y with
    | ok b => cases h
    | error f' => exact .error (.wording _ _ _)

end Alike

theorem Traced.bind_result (x : Traced α) (f : α → Traced β) :
    (x >>= f).result = x.result >>= fun a => (f a).result := by
  rw [bind_def]
  cases x.result <;> rfl

theorem Traced.locate_result (x : Traced α) (p : Position) :
    (x.locate p).result = x.result.mapError (·.locate p) := rfl

/-- From every context, computations that leave the same context and results that are alike. -/
def Exec.Alike (x y : Exec α) : Prop :=
  ∀ ctx, (x ctx).context = (y ctx).context ∧ MailSieve.Alike (x ctx).result (y ctx).result

namespace Exec.Alike

theorem refl (x : Exec α) : Exec.Alike x x := by
  intro ctx
  exact ⟨rfl, .refl _⟩

theorem bind {x y : Exec α} {f g : α → Exec β} (h : Exec.Alike x y) (hf : ∀ a, Exec.Alike (f a) (g a)) :
    Exec.Alike (x >>= f) (y >>= g) := by
  intro ctx
  obtain ⟨hctx, hresult⟩ := h ctx
  rw [bind_apply, bind_apply, ← hctx]
  generalize (x ctx).result = r, (y ctx).result = r' at hresult ⊢
  cases hresult with
  | ok a => exact hf a _
  | error he => exact ⟨rfl, .error he⟩

theorem locate {x y : Exec α} (h : Exec.Alike x y) (p : Position) : Exec.Alike (x.locate p) (y.locate p) := by
  intro ctx
  exact ⟨(h ctx).1, (h ctx).2.locate p⟩

theorem block {x y : Exec α} (h : Exec.Alike x y) : Exec.Alike x.block y.block := by
  intro ctx
  obtain ⟨hctx, hresult⟩ := h ctx.enterBlock
  constructor
  · simp only [Exec.block, hctx]
  · exact hresult

theorem of_result {x y : Except Error α} (h : MailSieve.Alike x y) : Exec.Alike (ofExcept x) (ofExcept y) := by
  intro ctx
  exact ⟨rfl, h⟩

end Exec.Alike

/-! ## Operands -/

theorem toOption_bind (x : Except ε α) (f : α → Except ε β) :
    (x >>= f).toOption = x.toOption.bind fun a => (f a).toOption := by
  cases x <;> rfl

theorem toOption_verdict (x : Except ε α) : (verdict x).toOption = x.toOption.map fun _ => () := by
  cases x <;> rfl

namespace Comparison

variable (name name' : String)

theorem fill_toOption (slot : Option α) (value : α) (what : String) :
    (fill slot value name what).toOption = (fill slot value name' what).toOption := by
  unfold fill
  split <;> rfl

theorem addTag_toOption (takesPart : Bool) (tags : ComparisonTags) (tag : String) :
    (addTag name takesPart tags tag).toOption = (addTag name' takesPart tags tag).toOption := by
  unfold addTag
  split
  · rw [toOption_bind, toOption_bind, fill_toOption name name']
  · split
    · rw [toOption_bind, toOption_bind, fill_toOption name name']
    · rfl

theorem read_toOption (takesPart : Bool) (tags : ComparisonTags) (lists : List (List String))
    (args : List Argument) :
    (read name takesPart tags lists args).toOption = (read name' takesPart tags lists args).toOption := by
  fun_induction read name takesPart tags lists args with
  | case1 => rfl
  | case2 tags lists items rest ih => rw [ih, read]
  | case3 => rfl
  | case4 tags lists tag rest hlists =>
    unfold read
    rw [if_pos hlists]
    rfl
  | case5 tags lists hlists comparator rest ih =>
    rw [toOption_bind, fill_toOption name name']
    simp only [ih, ← toOption_bind]
    -- The left side reads on under `name'` by now, and must stay folded.
    conv_rhs => unfold read
    rw [if_neg hlists, if_pos rfl]
  | case6 tags lists rest hlists hother =>
    unfold read
    rw [if_neg hlists, if_pos rfl]
    split
    · exact absurd rfl (hother _ _)
    · rfl
  | case7 tags lists tag rest hlists htag ih =>
    rw [toOption_bind, addTag_toOption name name']
    simp only [ih, ← toOption_bind]
    conv_rhs => unfold read
    rw [if_neg hlists, if_neg htag]

end Comparison

section
variable {names : String → String → Prop} {t t' : Test}

namespace Test.Renames

theorem name_related (h : Test.Renames names t t') : names t.name t'.name := by
  cases h with
  | mk hname => exact hname

theorem arguments_eq (h : Test.Renames names t t') : t.arguments = t'.arguments := by
  cases h
  rfl

theorem position_eq (h : Test.Renames names t t') : t.position = t'.position := by
  cases h
  rfl

theorem ofTest_toOption (h : Test.Renames names t t') (takesPart : Bool) (operands : Nat) :
    (Comparison.ofTest t takesPart operands).toOption = (Comparison.ofTest t' takesPart operands).toOption := by
  cases h with
  | @mk name name' arguments tests tests' position hname htests =>
    cases htests with
    | some => rfl
    | none =>
      simp only [Comparison.ofTest, Option.isSome_none, Bool.false_eq_true, if_false, toOption_bind,
        Comparison.read_toOption name name']
      congr
      funext (tags, lists)
      split <;> rfl

theorem presentNames_eq (h : Test.Renames names t t') : t.presentNames = t'.presentNames := by
  cases h with
  | mk hname htests =>
    cases htests with
    | none => rfl
    | some =>
      unfold presentNames
      split <;> split <;> simp_all

theorem sizeOperands_eq (h : Test.Renames names t t') : t.sizeOperands = t'.sizeOperands := by
  cases h with
  | mk hname htests =>
    cases htests with
    | none => rfl
    | some =>
      unfold sizeOperands
      split <;> split <;> simp_all

theorem bodyKeys_toOption (h : Test.Renames names t t') : t.bodyKeys.toOption = t'.bodyKeys.toOption := by
  simp only [bodyKeys, toOption_bind, h.ofTest_toOption]

theorem isBare_eq (h : Test.Renames names t t') : t.isBare = t'.isBare := by
  cases h with
  | mk hname htests => cases htests <;> rfl

theorem checkBare_toOption (h : Test.Renames names t t') : t.checkBare.toOption = t'.checkBare.toOption := by
  unfold checkBare
  rw [h.isBare_eq]
  split <;> rfl

theorem testList_toOption (h : Test.Renames names t t') :
    (verdict t.testList).toOption = (verdict t'.testList).toOption := by
  cases h with
  | @mk name name' arguments tests tests' position hname htests =>
    cases arguments with
    | cons a arguments => rfl
    | nil =>
      cases htests with
      | none => rfl
      | some hs => cases hs <;> rfl

theorem negated_toOption (h : Test.Renames names t t') :
    (verdict t.negated).toOption = (verdict t'.negated).toOption := by
  cases h with
  | @mk name name' arguments tests tests' position hname htests =>
    cases arguments with
    | cons a arguments => rfl
    | nil =>
      cases htests with
      | none => rfl
      | some hs =>
        cases hs with
        | nil => rfl
        | cons h hs => cases hs <;> rfl

theorem shape_toOption (h : Test.Renames names t t') (kind : TestKind) :
    (kind.shape t).toOption = (kind.shape t').toOption := by
  cases kind with
  | address | envelope | header => simp only [TestKind.shape, toOption_verdict, h.ofTest_toOption]
  | allOf | anyOf => exact h.testList_toOption
  | negation => exact h.negated_toOption
  | constant value => exact h.checkBare_toOption
  | present => simp only [TestKind.shape, h.presentNames_eq]
  | size => simp only [TestKind.shape, h.sizeOperands_eq]
  | body => simp only [TestKind.shape, toOption_verdict, h.bodyKeys_toOption]
  | host test => rfl

/-- A test of the host sees its own name. -/
theorem check_alike (h : Test.Renames names t t') {kind : TestKind} (hhost : ∀ test, kind ≠ .host test) :
    Alike (kind.check t) (kind.check t') := by
  cases kind with
  | host test => exact absurd rfl (hhost test)
  | _ => exact .of_shape (h.shape_toOption _)

end Test.Renames

end

section
variable {commands tests : String → String → Prop} {c c' : Command}

namespace Command.Renames

theorem name_related (h : Command.Renames commands tests c c') : commands c.name c'.name := by
  cases h with
  | mk hname => exact hname

theorem arguments_eq (h : Command.Renames commands tests c c') : c.arguments = c'.arguments := by
  cases h
  rfl

theorem position_eq (h : Command.Renames commands tests c c') : c.position = c'.position := by
  cases h
  rfl

theorem operand_toOption (h : Command.Renames commands tests c c') (what : String) :
    (c.operand what).toOption = (c'.operand what).toOption := by
  unfold operand
  rw [h.arguments_eq]
  split <;> rfl

theorem refuseBlock_toOption (h : Command.Renames commands tests c c') :
    c.refuseBlock.toOption = c'.refuseBlock.toOption := by
  cases h with
  | mk hname htests hblock => cases hblock <;> rfl

theorem refuseTests_toOption (h : Command.Renames commands tests c c') :
    c.refuseTests.toOption = c'.refuseTests.toOption := by
  cases h with
  | mk hname htests hblock => cases htests <;> rfl

theorem isBare_eq (h : Command.Renames commands tests c c') : c.isBare = c'.isBare := by
  cases h with
  | mk hname htests hblock => cases htests <;> rfl

theorem action_toOption (h : Command.Renames commands tests c c') (what : String) :
    (c.action what).toOption = (c'.action what).toOption := by
  simp only [action, toOption_bind, h.refuseBlock_toOption, h.refuseTests_toOption, h.operand_toOption]

theorem requirements_toOption (h : Command.Renames commands tests c c') :
    c.requirements.toOption = c'.requirements.toOption := by
  simp only [requirements, toOption_bind, h.refuseBlock_toOption, h.arguments_eq]
  cases h with
  | mk hname htests hblock =>
    cases htests with
    | none => rfl
    | some =>
      congr
      funext _
      split <;> split <;> simp_all

/-- Both commands have the test and the block of a conditional, or neither has. -/
theorem conditional_cases (h : Command.Renames commands tests c c') :
    (∃ t block t' block', c.conditional = .ok (t, block) ∧ c'.conditional = .ok (t', block') ∧
      Test.Renames tests t t') ∨
    ∃ f f', c.conditional = .error f ∧ c'.conditional = .error f' := by
  cases h with
  | @mk name name' arguments ts ts' block block' position hname htests hblock =>
    cases hblock with
    | none => exact .inr ⟨_, _, rfl, rfl⟩
    | some hblock =>
      cases arguments with
      | cons a arguments => exact .inr ⟨_, _, rfl, rfl⟩
      | nil =>
        cases htests with
        | none => exact .inr ⟨_, _, rfl, rfl⟩
        | some hs =>
          cases hs with
          | nil => exact .inr ⟨_, _, rfl, rfl⟩
          | cons h hs =>
            cases hs with
            | nil => exact .inl ⟨_, _, _, _, rfl, rfl, h⟩
            | cons => exact .inr ⟨_, _, rfl, rfl⟩

theorem conditional_toOption (h : Command.Renames commands tests c c') :
    (verdict c.conditional).toOption = (verdict c'.conditional).toOption := by
  rcases h.conditional_cases with ⟨t, block, t', block', hc, hc', -⟩ | ⟨f, f', hc, hc'⟩
  · rw [hc, hc']
    rfl
  · rw [hc, hc']
    rfl

theorem alternative_toOption (h : Command.Renames commands tests c c') :
    (verdict c.alternative).toOption = (verdict c'.alternative).toOption := by
  have hbare := h.isBare_eq
  unfold alternative
  cases h with
  | mk hname htests hblock =>
    cases hblock with
    | none => rfl
    | some hblock =>
      rw [hbare]
      dsimp only
      split <;> rfl

theorem checkBare_toOption (h : Command.Renames commands tests c c') :
    c.checkBare.toOption = c'.checkBare.toOption := by
  simp only [checkBare, toOption_bind, h.refuseBlock_toOption, h.isBare_eq]
  congr
  funext _
  split <;> rfl

theorem check_toOption (h : Command.Renames commands tests c c') (kind : CommandKind) :
    (kind.check c).toOption = (kind.check c').toOption := by
  cases kind with
  | ifThen | elseIf => exact h.conditional_toOption
  | otherwise => exact h.alternative_toOption
  | require => simp only [CommandKind.check, toOption_verdict, h.requirements_toOption]
  | stop | keep | discard => exact h.checkBare_toOption
  | redirect =>
    simp only [CommandKind.check, toOption_verdict, redirectAddress, toOption_bind, h.action_toOption]
  | fileInto | reject => simp only [CommandKind.check, toOption_verdict, h.action_toOption]

end Command.Renames

end

end MailSieve
