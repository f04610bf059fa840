import MailSieve.Proofs.Evaluation
import MailSieve.Proofs.Preorder

/-!
# Two runs side by side

One script under two environments, or against two messages. The value of a test comes from
what is found for it and for the tests in it, and what a command does from its test and its
block, so two runs go the same way for as long as they agree on these.
-/

namespace MailSieve

theorem Traced.ofExcept_error_bind (e : Error) (f : α → Traced β) :
    (ofExcept (.error e) >>= f) = ofExcept (.error e) := rfl

theorem Exec.ofExcept_error_bind (e : Error) (f : α → Exec β) :
    (ofExcept (.error e) >>= f) = ofExcept (.error e) := rfl

/-- Computations agree from a context if their steps do. -/
theorem Exec.bind_congr_at {x y : Exec α} {f g : α → Exec β} {ctx : Context} (hx : x ctx = y ctx)
    (hf : ∀ a, (x ctx).result = .ok a → f a (x ctx).context = g a (x ctx).context) :
    (x >>= f) ctx = (y >>= g) ctx := by
  rw [bind_apply, bind_apply, ← hx]
  cases ha : (x ctx).result with
  | error e => rfl
  | ok a => simp only [hf a ha]

theorem Exec.locate_congr_at {x y : Exec α} {p : Position} {ctx : Context} (h : x ctx = y ctx) :
    x.locate p ctx = y.locate p ctx := by
  unfold locate
  rw [h]

namespace Environment

section
variable {env env' : Environment} {mail mail' : Mail} {enabled : List String}

/-! ## Tests -/

/-- Both sides find the same test, allow it alike, and agree on its value if there is no other
test in it. -/
structure SameUse (env env' : Environment) (mail mail' : Mail) (enabled : List String) (t : Test) :
    Prop where
  lookup : env.tests.lookup t.name = env'.tests.lookup t.name
  allowed : ∀ {kind}, env.tests.lookup t.name = .ok kind →
    env.checkEnabled enabled .test t.name kind.isExtension =
      env'.checkEnabled enabled .test t.name kind.isExtension
  value : ∀ {kind}, env.tests.lookup t.name = .ok kind →
    env.leafValue enabled mail kind t = env'.leafValue enabled mail' kind t

mutual
theorem evaluate_congr : ∀ {t : Test}, (∀ u ∈ t.preorder, SameUse env env' mail mail' enabled u) →
    env.evaluate enabled mail t = env'.evaluate enabled mail' t
  | ⟨name, arguments, tests, position⟩, h => by
    rw [Test.preorder_eq, List.forall_mem_cons] at h
    obtain ⟨huse, hinner⟩ := h
    rw [evaluate_eq, evaluate_eq, ← huse.lookup]
    cases hlook : env.tests.lookup (Test.mk name arguments tests position).name with
    | error e => rw [Traced.ofExcept_error_bind, Traced.ofExcept_error_bind]
    | ok kind =>
      have hvalue : env.valueOf enabled mail kind ⟨name, arguments, tests, position⟩ =
          env'.valueOf enabled mail' kind ⟨name, arguments, tests, position⟩ := by
        cases kind with
        | anyOf => exact evaluateUntil?_congr hinner
        | allOf => exact evaluateUntil?_congr hinner
        | negation =>
          unfold valueOf
          rw [evaluateUntil?_congr hinner]
        | _ => exact congrArg (Traced.mk _) (huse.value hlook)
      simp only [Traced.ofExcept_ok_bind, huse.allowed hlook, hvalue]

theorem evaluateUntil?_congr : ∀ {ts : Option (List Test)} {decisive : Bool},
    (∀ u ∈ Test.preorder? ts, SameUse env env' mail mail' enabled u) →
    env.evaluateUntil? enabled mail decisive ts = env'.evaluateUntil? enabled mail' decisive ts
  | none, _, _ => by rw [evaluateUntil?, evaluateUntil?]
  | some _, _, h => by
    rw [evaluateUntil?, evaluateUntil?]
    exact evaluateUntil_congr h

theorem evaluateUntil_congr : ∀ {ts : List Test} {decisive : Bool},
    (∀ u ∈ Test.preorderAll ts, SameUse env env' mail mail' enabled u) →
    env.evaluateUntil enabled mail decisive ts = env'.evaluateUntil enabled mail' decisive ts
  | [], _, _ => by rw [evaluateUntil, evaluateUntil]
  | t :: ts, _, h => by
    rw [Test.preorderAll, List.forall_mem_append] at h
    rw [evaluateUntil, evaluateUntil, evaluate_congr h.1, evaluateUntil_congr h.2]
end

/-! ## Commands -/

variable {kind : CommandKind} {c : Command} {cs : List Command} {ctx : Context}

theorem testOf_congr (htest : ∀ t block, c.conditional = .ok (t, block) →
      env.evaluate ctx.enabled mail t = env'.evaluate ctx.enabled mail' t) :
    env.testOf mail c ctx = env'.testOf mail' c ctx := by
  unfold testOf
  cases hc : c.conditional with
  | error fault => simp only [liftShape, Exec.ofExcept_error_bind]
  | ok operands =>
    obtain ⟨t, block⟩ := operands
    simp only [liftShape, Exec.ofExcept_ok_bind, Exec.get_bind, htest t block hc]

theorem choose_congr (htest : env.testOf mail c ctx = env'.testOf mail' c ctx) :
    env.choose mail kind c ctx = env'.choose mail' kind c ctx := by
  have hasked : ∀ f : Bool → Exec Decision,
      (env.testOf mail c >>= f) ctx = (env'.testOf mail' c >>= f) ctx := by
    intro f
    apply Exec.bind_congr_at htest
    intros
    rfl
  cases kind with
  | ifThen => exact hasked _
  | elseIf =>
    cases hp : ctx.preceding with
    | pending =>
      simp only [choose, Exec.get_bind, hp]
      exact hasked _
    | _ => simp only [choose, Exec.get_bind, hp]
  | otherwise => cases hp : ctx.preceding <;> simp only [choose, Exec.get_bind, hp]
  | _ => simp only [choose, Exec.get_bind]

/-- Deciding about a block changes nothing. -/
theorem choose_context (env : Environment) (mail : Mail) (kind : CommandKind) (c : Command) (ctx : Context) :
    (env.choose mail kind c ctx).context = ctx := by
  have hasked : (env.testOf mail c ctx).context = ctx := by
    unfold testOf
    cases c.conditional <;> rfl
  unfold choose
  rw [Exec.get_bind]
  cases kind with
  | ifThen => rw [Exec.bind_pure_context, hasked]
  | elseIf =>
    cases ctx.preceding with
    | pending => rw [Exec.bind_pure_context, hasked]
    | _ => rfl
  | otherwise => cases ctx.preceding <;> rfl
  | _ => rfl

theorem runSimple_congr (henable : ∀ names, env.enableAll names = env'.enableAll names) :
    env.runSimple kind c = env'.runSimple kind c := by
  unfold runSimple
  simp only [henable]

theorem perform_congr (henable : ∀ names, env.enableAll names = env'.enableAll names)
    (htest : ∀ t block, c.conditional = .ok (t, block) →
      env.evaluate ctx.enabled mail t = env'.evaluate ctx.enabled mail' t)
    (hblock : env.runBlock? mail c.block ctx.enterBlock = env'.runBlock? mail' c.block ctx.enterBlock) :
    env.perform mail kind c ctx = env'.perform mail' kind c ctx := by
  cases kind with
  | ifThen | elseIf | otherwise =>
    apply Exec.bind_congr_at (choose_congr (testOf_congr htest))
    intro decision _
    rw [choose_context]
    cases decision with
    | skip branch => dsimp only
    | run =>
      have hrun : Exec.block (env.runBlock? mail c.block) ctx = Exec.block (env'.runBlock? mail' c.block) ctx := by
        simp only [Exec.block, hblock]
      apply Exec.bind_congr_at hrun
      intros
      rfl
  | _ => simp only [perform, runSimple_congr henable]

theorem runCommand_congr (hlook : env.commands.lookup c.name = env'.commands.lookup c.name)
    (hallowed : ∀ {kind}, env.commands.lookup c.name = .ok kind →
      env.checkEnabled ctx.enabled .command c.name kind.isExtension =
        env'.checkEnabled ctx.enabled .command c.name kind.isExtension)
    (hperform : ∀ {kind}, env.commands.lookup c.name = .ok kind →
      env.perform mail kind c ctx.enterCommand = env'.perform mail' kind c ctx.enterCommand) :
    env.runCommand mail c ctx = env'.runCommand mail' c ctx := by
  have hsteps : ∀ {kind}, env.commands.lookup c.name = .ok kind →
      (Exec.ofExcept (env.checkEnabled ctx.enabled .command c.name kind.isExtension) >>=
          fun _ => env.perform mail kind c) ctx.enterCommand =
        (Exec.ofExcept (env'.checkEnabled ctx.enabled .command c.name kind.isExtension) >>=
          fun _ => env'.perform mail' kind c) ctx.enterCommand := by
    intro kind hkind
    rw [hallowed hkind]
    exact Exec.bind_congr_at rfl fun _ _ => hperform hkind
  rw [runCommand_eq, runCommand_eq]
  apply Exec.locate_congr_at
  rw [Exec.modify_bind, Exec.modify_bind, ← hlook]
  apply Exec.bind_congr_at rfl
  intro kind hkind
  apply Exec.bind_congr_at rfl
  intro _ _
  exact hsteps hkind

theorem runCommands_cons_congr (hc : env.runCommand mail c ctx = env'.runCommand mail' c ctx)
    (hcs : (env.runCommand mail c ctx).result = .ok .next →
      env.runCommands mail cs (env.runCommand mail c ctx).context =
        env'.runCommands mail' cs (env.runCommand mail c ctx).context) :
    env.runCommands mail (c :: cs) ctx = env'.runCommands mail' (c :: cs) ctx := by
  rw [runCommands_cons, runCommands_cons]
  apply Exec.bind_congr_at hc
  intro flow hflow
  cases flow with
  | stop => rfl
  | next => exact hcs hflow

end

end Environment

end MailSieve
