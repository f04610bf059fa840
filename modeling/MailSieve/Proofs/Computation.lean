import Mathlib
import MailSieve.Run.Execution

/-!
# Computations over a context

How the steps of a computation compose, and what running one command comes
to: some checks, then `perform`.
-/

namespace MailSieve

/-! ## Results -/

theorem bind_eq_ok {x : Except ε α} {f : α → Except ε β} {b : β} :
    (x >>= f) = .ok b ↔ ∃ a, x = .ok a ∧ f a = .ok b := by
  cases x with
  | error e => exact ⟨fun h => (nomatch h), fun ⟨_, h, _⟩ => (nomatch h)⟩
  | ok a => exact ⟨fun h => ⟨a, rfl, h⟩, fun ⟨_, h, hf⟩ => by cases h; exact hf⟩

@[simp] theorem ok_bind (a : α) (f : α → Except ε β) : (Except.ok a >>= f) = f a := rfl

theorem pure_eq_ok {a b : α} : (pure a : Except ε α) = .ok b ↔ a = b := by
  simp [pure, Except.pure]

theorem throw_ne_ok {e : ε} {a : α} : (throw e : Except ε α) ≠ .ok a :=
  fun h => nomatch h

theorem verdict_eq_ok {x : Except ε α} : verdict x = .ok () ↔ ∃ a, x = .ok a := by
  cases x <;> simp [verdict, Except.map]

theorem liftShape_eq_ok {x : Except ShapeFault α} {a : α} : liftShape x = .ok a ↔ x = .ok a := by
  cases x <;> simp [liftShape]

theorem mapError_eq_ok {x : Except ε α} {f : ε → ε'} {a : α} :
    x.mapError f = .ok a ↔ x = .ok a := by
  cases x <;> simp [Except.mapError]

theorem error_of_mapError {x : Except ε α} {f : ε → ε'} {e : ε'} (h : x.mapError f = .error e) :
    ∃ e', x = .error e' ∧ e = f e' := by
  cases x with
  | error e' => cases h; exact ⟨e', rfl, rfl⟩
  | ok b => cases h

theorem mapError_of_forall {x : Except ε α} {f : ε → ε} (h : ∀ e, x = .error e → f e = e) :
    x.mapError f = x := by
  cases x with
  | error e => exact congrArg Except.error (h e rfl)
  | ok a => rfl

/-- The first place an error is given is the one it keeps. -/
theorem Error.locate_locate (e : Error) (p q : Position) : (e.locate p).locate q = e.locate p := by
  cases e <;> rfl

/-! ## Steps -/

namespace Traced

theorem bind_def (x : Traced α) (f : α → Traced β) :
    (x >>= f) = match x.result with
      | .ok a => ⟨x.reached ++ (f a).reached, (f a).result⟩
      | .error e => ⟨x.reached, .error e⟩ := rfl

@[simp] theorem ofExcept_ok_bind (a : α) (f : α → Traced β) : (ofExcept (.ok a) >>= f) = f a := rfl

end Traced

namespace Exec

theorem bind_apply (x : Exec α) (f : α → Exec β) (ctx : Context) :
    (x >>= f) ctx = match (x ctx).result with
      | .ok a => { f a (x ctx).context with
          reached := (x ctx).reached ++ (f a (x ctx).context).reached }
      | .error e => ⟨(x ctx).context, (x ctx).reached, .error e⟩ := by
  show Exec.bind x f ctx = _
  unfold Exec.bind
  rcases x ctx with ⟨ctx', reached, e | a⟩ <;> rfl

@[simp] theorem bind_pure (x : Exec α) : (x >>= pure) = x := by
  funext ctx
  rw [bind_apply]
  rcases x ctx with ⟨ctx', reached, e | a⟩
  · rfl
  · show (⟨ctx', reached ++ [], .ok a⟩ : Run α) = _
    rw [List.append_nil]

theorem bind_pure_context (x : Exec α) (f : α → β) (ctx : Context) :
    ((x >>= fun a => pure (f a)) ctx).context = (x ctx).context := by
  rw [bind_apply]
  split <;> rfl

@[simp] theorem pure_apply (a : α) (ctx : Context) : (pure a : Exec α) ctx = ⟨ctx, [], .ok a⟩ := rfl

@[simp] theorem ofExcept_apply (r : Except Error α) (ctx : Context) : ofExcept r ctx = ⟨ctx, [], r⟩ := rfl

@[simp] theorem pure_bind (a : α) (f : α → Exec β) : (pure a >>= f) = f a := rfl

@[simp] theorem ofExcept_ok_bind (a : α) (f : α → Exec β) : (ofExcept (.ok a) >>= f) = f a := rfl

@[simp] theorem get_bind (f : Context → Exec β) (ctx : Context) : (get >>= f) ctx = f ctx ctx := rfl

@[simp] theorem modify_bind (g : Context → Context) (f : Unit → Exec β) (ctx : Context) :
    (modify g >>= f) ctx = f () (g ctx) := rfl

@[simp] theorem locate_context (x : Exec α) (p : Position) (ctx : Context) :
    (x.locate p ctx).context = (x ctx).context := rfl

@[simp] theorem locate_result (x : Exec α) (p : Position) (ctx : Context) :
    (x.locate p ctx).result = (x ctx).result.mapError (·.locate p) := rfl

end Exec

/-! ## One command -/

namespace Environment

def perform (env : Environment) (mail : Mail) (kind : CommandKind) (c : Command) : Exec Flow :=
  match kind with
  | .ifThen | .elseIf | .otherwise => do
    match ← env.choose mail kind c with
    | .skip branch =>
      Exec.modify ({ · with branch })
      return .next
    | .run =>
      let flow ← Exec.block (env.runBlock? mail c.block)
      if kind ≠ .otherwise then Exec.modify ({ · with branch := .taken })
      return flow
  | kind => env.runSimple kind c

theorem runCommand_eq (env : Environment) (mail : Mail) (c : Command) :
    env.runCommand mail c = Exec.locate (do
      Exec.modify Context.enterCommand
      let kind ← Exec.ofExcept (env.commands.lookup c.name)
      Exec.ofExcept (liftShape (kind.check c))
      let ctx ← Exec.get
      Exec.ofExcept (env.checkEnabled ctx.enabled .command c.name kind.isExtension)
      env.perform mail kind c) c.position := by
  cases c
  rw [runCommand]
  rfl

/-- A command whose checks pass is performed. -/
theorem runCommand_of_checked {env : Environment} {c : Command} {kind : CommandKind} {ctx : Context}
    (hlook : env.commands.lookup c.name = .ok kind) (hcheck : kind.check c = .ok ())
    (hen : env.checkEnabled ctx.enabled .command c.name kind.isExtension = .ok ()) (mail : Mail) :
    env.runCommand mail c ctx = Exec.locate (env.perform mail kind c) c.position ctx.enterCommand := by
  have hen' : env.checkEnabled ctx.enterCommand.enabled .command c.name kind.isExtension = .ok () := hen
  rw [runCommand_eq]
  simp [Exec.locate, hlook, hcheck, liftShape, hen']

/-! ## Conditionals -/

/-- Runs the block if the test holds, and tells the next command which it was. -/
def runArm (env : Environment) (mail : Mail) (t : Test) (block : Option (List Command)) : Exec Flow := do
  let ctx ← Exec.get
  if ← Exec.ofTraced (env.evaluate ctx.enabled mail t) then
    let flow ← Exec.block (env.runBlock? mail block)
    Exec.modify ({ · with branch := .taken })
    return flow
  else
    Exec.modify ({ · with branch := .pending })
    return .next

theorem perform_arm {env : Environment} {mail : Mail} {kind : CommandKind} {c : Command} {ctx : Context}
    {t : Test} {block : List Command}
    (hkind : kind = .ifThen ∨ kind = .elseIf ∧ ctx.preceding = .pending)
    (hc : c.conditional = .ok (t, block)) :
    env.perform mail kind c ctx = env.runArm mail t c.block ctx := by
  have htest : env.testOf mail c ctx = Exec.ofTraced (env.evaluate ctx.enabled mail t) ctx := by
    simp [testOf, hc, liftShape]
  have hchoose : env.choose mail kind c ctx =
      (env.testOf mail c >>= fun b => pure (if b then Decision.run else .skip .pending)) ctx := by
    rcases hkind with rfl | ⟨rfl, hp⟩
    · rfl
    · simp only [choose, Exec.get_bind, hp]
  rcases hkind with rfl | ⟨rfl, -⟩ <;>
  · simp only [perform, runArm, Exec.get_bind]
    rw [Exec.bind_apply, hchoose, Exec.bind_apply, htest, Exec.bind_apply]
    cases h : (Exec.ofTraced (env.evaluate ctx.enabled mail t) ctx).result with
    | error e => rfl
    | ok b => cases b <;> simp

theorem runArm_error {env : Environment} {mail : Mail} {t : Test} {ctx : Context} {e : Error}
    (h : (env.evaluate ctx.enabled mail t).result = .error e) (block : Option (List Command)) :
    env.runArm mail t block ctx = ⟨ctx, (env.evaluate ctx.enabled mail t).reached, .error e⟩ := by
  simp only [runArm, Exec.get_bind]
  rw [Exec.bind_apply]
  simp only [Exec.ofTraced, h]

theorem runArm_false {env : Environment} {mail : Mail} {t : Test} {ctx : Context}
    (h : (env.evaluate ctx.enabled mail t).result = .ok false) (block : Option (List Command)) :
    env.runArm mail t block ctx =
      ⟨{ ctx with branch := .pending }, (env.evaluate ctx.enabled mail t).reached, .ok .next⟩ := by
  simp only [runArm, Exec.get_bind]
  rw [Exec.bind_apply]
  simp [Exec.ofTraced, h]

theorem runArm_true {env : Environment} {mail : Mail} {t : Test} {ctx : Context}
    {block : Option (List Command)} {r : Run Flow}
    (h : (env.evaluate ctx.enabled mail t).result = .ok true)
    (hr : Exec.block (env.runBlock? mail block) ctx = r) :
    env.runArm mail t block ctx =
      ⟨match r.result with
        | .ok _ => { r.context with branch := .taken }
        | .error _ => r.context,
      (env.evaluate ctx.enabled mail t).reached ++ r.reached, r.result⟩ := by
  simp only [runArm, Exec.get_bind]
  rw [Exec.bind_apply]
  simp only [Exec.ofTraced, h, if_true]
  rw [Exec.bind_apply, hr]
  rcases r with ⟨ctx', reached, e | flow⟩
  · rfl
  · simp

theorem perform_elseIf_taken (env : Environment) (mail : Mail) (c : Command) {ctx : Context}
    (h : ctx.preceding = .taken) :
    env.perform mail .elseIf c ctx = ⟨{ ctx with branch := .taken }, [], .ok .next⟩ := by
  simp only [perform]
  rw [Exec.bind_apply]
  simp [choose, h]

theorem perform_otherwise_taken (env : Environment) (mail : Mail) (c : Command) {ctx : Context}
    (h : ctx.preceding = .taken) :
    env.perform mail .otherwise c ctx = ⟨{ ctx with branch := .none }, [], .ok .next⟩ := by
  simp only [perform]
  rw [Exec.bind_apply]
  simp [choose, h]

theorem perform_otherwise_pending (env : Environment) (mail : Mail) (c : Command) {ctx : Context}
    (h : ctx.preceding = .pending) :
    env.perform mail .otherwise c ctx = Exec.block (env.runBlock? mail c.block) ctx := by
  simp only [perform]
  rw [Exec.bind_apply]
  simp [choose, h]

theorem runCommands_cons (env : Environment) (mail : Mail) (c : Command) (cs : List Command) :
    env.runCommands mail (c :: cs) = (do
      match ← env.runCommand mail c with
      | .stop => return .stop
      | .next => env.runCommands mail cs) := rfl

/-- The errors of a run have got their place, if they can have one. -/
theorem runCommand_error_locate {env : Environment} {mail : Mail} {c : Command} {ctx : Context}
    {e : Error} (h : (env.runCommand mail c ctx).result = .error e) (p : Position) :
    e.locate p = e := by
  rw [runCommand_eq, Exec.locate_result] at h
  obtain ⟨e', -, rfl⟩ := error_of_mapError h
  exact e'.locate_locate _ _

end Environment

end MailSieve
