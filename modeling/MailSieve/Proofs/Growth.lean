import MailSieve.Proofs.Computation

/-!
# What every operation on a context preserves

Actions and enabled capabilities are only ever added, and a rejection stays
alone. Both are read off the primitive steps and carried through sequencing,
so they hold of every run, also of one that fails half way.
-/

namespace MailSieve

def RejectAlone (actions : List Action) : Prop :=
  ∀ a ∈ actions, a.isReject = true → actions.length = 1

namespace Context

/-- `after` can be reached from `before` by adding actions and capabilities. -/
structure Extends (before after : Context) : Prop where
  actions : before.actions <+: after.actions
  enabled : before.enabled ⊆ after.enabled
  alone : RejectAlone before.actions → RejectAlone after.actions

theorem Extends.refl (ctx : Context) : ctx.Extends ctx :=
  ⟨List.prefix_refl _, List.Subset.refl _, id⟩

theorem Extends.trans {a b c : Context} (h : a.Extends b) (h' : b.Extends c) : a.Extends c :=
  ⟨h.actions.trans h'.actions, List.Subset.trans h.enabled h'.enabled, h'.alone ∘ h.alone⟩

/-- The state of the chain plays no part. -/
theorem Extends.of_eq {a b : Context} (ha : b.actions = a.actions) (he : b.enabled = a.enabled) :
    a.Extends b := by
  refine ⟨?_, ?_, ?_⟩
  · exact ⟨[], by rw [ha, List.append_nil]⟩
  · intro name hname
    rw [he]
    exact hname
  · rw [ha]; exact id

theorem addAction_eq_ok {ctx ctx' : Context} {a : Action} (h : ctx.addAction a = .ok ctx') :
    ctx' = { ctx with actions := ctx.actions ++ [a] } ∧
      (ctx.actions = [] ∨ (a.isReject = false ∧ ∀ b ∈ ctx.actions, b.isReject = false)) := by
  unfold addAction at h
  split at h
  · cases h
  · next hn =>
    cases h
    refine ⟨rfl, ?_⟩
    by_cases hnil : ctx.actions = []
    · exact .inl hnil
    · simpa [hnil] using hn

theorem addAction_eq_error {ctx : Context} {a : Action} {fault : CommandFault}
    (h : ctx.addAction a = .error fault) :
    fault = .rejectNotAlone ∧ ctx.actions ≠ [] ∧
      (a.isReject = true ∨ ∃ b ∈ ctx.actions, b.isReject = true) := by
  unfold addAction at h
  split at h
  · next hn =>
    cases h
    exact ⟨rfl, hn.1, by simpa using hn.2⟩
  · cases h

theorem Extends.addAction {ctx ctx' : Context} {a : Action} (h : ctx.addAction a = .ok ctx') :
    ctx.Extends ctx' := by
  obtain ⟨rfl, hjoin⟩ := addAction_eq_ok h
  refine ⟨List.prefix_append _ _, List.Subset.refl _, fun _ b hb hr => ?_⟩
  rcases hjoin with hnil | ⟨ha, hrest⟩
  · simp [hnil]
  · rcases List.mem_append.1 hb with hb | hb
    · rw [hrest b hb] at hr; cases hr
    · rw [List.mem_singleton.1 hb, ha] at hr; cases hr

theorem Extends.enable (ctx : Context) (capability : String) : ctx.Extends (ctx.enable capability) :=
  ⟨List.prefix_refl _, fun _ h => List.mem_insert_of_mem h, id⟩

end Context

namespace Exec

/-- The computation only adds to the context, whether it succeeds or fails. -/
def Grows (x : Exec α) : Prop := ∀ ctx : Context, ctx.Extends (x ctx).context

theorem Grows.ofExcept (r : Except Error α) : (Exec.ofExcept r).Grows := fun ctx => .refl ctx

theorem Grows.ofTraced (x : Traced α) : (Exec.ofTraced x).Grows := fun ctx => .refl ctx

theorem Grows.pure (a : α) : (Pure.pure a : Exec α).Grows := fun ctx => .refl ctx

theorem Grows.get : Exec.get.Grows := fun ctx => .refl ctx

theorem Grows.modify {f : Context → Context} (h : ∀ ctx : Context, ctx.Extends (f ctx)) :
    (Exec.modify f).Grows := h

theorem Grows.enterCommand : (Exec.modify Context.enterCommand).Grows :=
  Grows.modify fun _ => .of_eq rfl rfl

theorem Grows.setBranch (branch : Branch) : (Exec.modify ({ · with branch })).Grows :=
  Grows.modify fun _ => .of_eq rfl rfl

theorem Grows.bind {x : Exec α} {f : α → Exec β} (hx : x.Grows) (hf : ∀ a, (f a).Grows) :
    (x >>= f).Grows := by
  intro ctx
  rw [bind_apply]
  split
  · exact (hx ctx).trans (hf _ _)
  · exact hx ctx

theorem Grows.locate {x : Exec α} (hx : x.Grows) (p : Position) : (x.locate p).Grows := hx

theorem Grows.block {x : Exec α} (hx : x.Grows) : (Exec.block x).Grows := by
  intro ctx
  have henter : ctx.Extends ctx.enterBlock := .of_eq rfl rfl
  have hleave : (x ctx.enterBlock).context.Extends ((x ctx.enterBlock).context.leaveBlock ctx) :=
    .of_eq rfl rfl
  exact (henter.trans (hx _)).trans hleave

theorem Grows.addAction (a : Action) : (Exec.addAction a).Grows := by
  intro ctx
  unfold Exec.addAction
  split
  · next ctx' h => exact .addAction h
  · exact .refl ctx

end Exec

open Exec

/-! ## Commands -/

namespace Environment

theorem enableAll_grows (env : Environment) (names : List String) : (env.enableAll names).Grows := by
  induction names with
  | nil => exact .pure _
  | cons name names ih =>
    unfold enableAll
    split
    · exact .bind (.modify fun ctx => .enable ctx name) fun _ => ih
    · exact .ofExcept _

theorem fileInto_grows (destination : String) : (fileInto destination).Grows := by
  refine .bind .get fun ctx => ?_
  split
  · exact .pure _
  · exact .addAction _

theorem runSimple_grows (env : Environment) (kind : CommandKind) (c : Command) :
    (env.runSimple kind c).Grows := by
  cases kind with
  | keep | discard => exact .bind (.addAction _) fun _ => .pure _
  | redirect | reject =>
    exact .bind (.ofExcept _) fun _ => .bind (.addAction _) fun _ => .pure _
  | fileInto =>
    exact .bind (.ofExcept _) fun destination => .bind (fileInto_grows destination) fun _ => .pure _
  | require =>
    exact .bind (.ofExcept _) fun names => .bind (env.enableAll_grows names) fun _ => .pure _
  | stop | ifThen | elseIf | otherwise => exact .pure _

theorem testOf_grows (env : Environment) (mail : Mail) (c : Command) : (env.testOf mail c).Grows :=
  .bind (.ofExcept _) fun _ => .bind .get fun _ => .ofTraced _

theorem choose_grows (env : Environment) (mail : Mail) (kind : CommandKind) (c : Command) :
    (env.choose mail kind c).Grows := by
  refine .bind .get fun ctx => ?_
  split
  · exact .bind (env.testOf_grows mail c) fun _ => .pure _
  · exact .bind (env.testOf_grows mail c) fun _ => .pure _
  · exact .pure _
  · exact .ofExcept _
  · exact .pure _
  · exact .pure _
  · exact .ofExcept _
  · exact .pure _

theorem perform_grows (env : Environment) (mail : Mail) (kind : CommandKind) {c : Command}
    (h : (env.runBlock? mail c.block).Grows) : (env.perform mail kind c).Grows := by
  cases kind with
  | ifThen | elseIf | otherwise =>
    refine .bind (env.choose_grows mail _ c) fun decision => ?_
    cases decision with
    | skip branch => exact .bind (.setBranch branch) fun _ => .pure _
    | run =>
      refine .bind h.block fun flow => ?_
      split
      · exact .bind (.setBranch .taken) fun _ => .pure _
      · exact .pure _
  | _ => exact env.runSimple_grows _ c

mutual
theorem runCommand_grows (env : Environment) (mail : Mail) : ∀ c, (env.runCommand mail c).Grows
  | ⟨name, arguments, tests, block, position⟩ => by
    rw [runCommand_eq]
    refine .locate (.bind .enterCommand fun _ => ?_) _
    refine .bind (.ofExcept _) fun kind => .bind (.ofExcept _) fun _ => .bind .get fun ctx => ?_
    exact .bind (.ofExcept _) fun _ => env.perform_grows mail kind (runBlock?_grows env mail block)

theorem runBlock?_grows (env : Environment) (mail : Mail) : ∀ block, (env.runBlock? mail block).Grows
  | none => .pure _
  | some commands => runCommands_grows env mail commands

theorem runCommands_grows (env : Environment) (mail : Mail) : ∀ cs, (env.runCommands mail cs).Grows
  | [] => .pure _
  | c :: cs => by
    rw [runCommands_cons]
    refine .bind (runCommand_grows env mail c) fun flow => ?_
    cases flow with
    | stop => exact .pure _
    | next => exact runCommands_grows env mail cs
end

end Environment

/-! ## Tests

A test is handed the context and hands it on to the tests in it, as a command does with its block.
`evaluate` is told the enabled capabilities alone and has no context to change. -/

theorem Exec.ofExcept_eq_ofTraced (r : Except Error α) (ctx : Context) :
    ofExcept r ctx = ofTraced (Traced.ofExcept r) ctx := rfl

theorem Exec.bind_ofTraced {x : Exec α} {f : α → Exec β} {y : Traced α} {g : α → Traced β} {ctx : Context}
    (hx : x ctx = ofTraced y ctx) (hf : ∀ a, f a ctx = ofTraced (g a) ctx) :
    (x >>= f) ctx = ofTraced (y >>= g) ctx := by
  obtain ⟨reached, result⟩ := y
  rw [bind_apply, hx, Traced.bind_def]
  cases result with
  | error e => rfl
  | ok a => simp only [ofTraced, hf a]

theorem Exec.locate_ofTraced {x : Exec α} {y : Traced α} {ctx : Context} (h : x ctx = ofTraced y ctx)
    (p : Position) : x.locate p ctx = ofTraced (y.locate p) ctx := by
  simp only [locate, h]
  rfl

namespace Environment

mutual
def evaluateIn (env : Environment) (mail : Mail) : Test → Exec Bool
  | ⟨name, arguments, tests, position⟩ =>
    let t : Test := ⟨name, arguments, tests, position⟩
    Exec.locate (do
      let kind ← Exec.ofExcept (env.tests.lookup name)
      Exec.ofExcept (kind.check t)
      let ctx ← Exec.get
      Exec.ofExcept (env.checkEnabled ctx.enabled .test name kind.isExtension)
      match kind with
      | .anyOf => env.evaluateUntilIn? mail true tests
      | .allOf => env.evaluateUntilIn? mail false tests
      | .negation => return !(← env.evaluateUntilIn? mail true tests)
      | kind => do
        let ctx ← Exec.get
        Exec.ofTraced ⟨reachedLeaf kind t, env.leafValue ctx.enabled mail kind t⟩) position
def evaluateUntilIn? (env : Environment) (mail : Mail) (decisive : Bool) : Option (List Test) → Exec Bool
  | none => return !decisive
  | some tests => env.evaluateUntilIn mail decisive tests
def evaluateUntilIn (env : Environment) (mail : Mail) (decisive : Bool) : List Test → Exec Bool
  | [] => return !decisive
  | t :: ts => do
    if (← env.evaluateIn mail t) = decisive then return decisive
    else env.evaluateUntilIn mail decisive ts
end

mutual
/-- Handed the context, a test gives the value that `evaluate` gives it and leaves the context to
the next as it was. -/
theorem evaluateIn_eq (env : Environment) (mail : Mail) : ∀ (t : Test) (ctx : Context),
    env.evaluateIn mail t ctx = Exec.ofTraced (env.evaluate ctx.enabled mail t) ctx
  | ⟨name, arguments, tests, position⟩, ctx => by
    rw [evaluateIn, evaluate]
    apply Exec.locate_ofTraced
    refine Exec.bind_ofTraced (Exec.ofExcept_eq_ofTraced _ ctx) fun kind => ?_
    refine Exec.bind_ofTraced (Exec.ofExcept_eq_ofTraced _ ctx) fun _ => ?_
    rw [Exec.get_bind]
    refine Exec.bind_ofTraced (Exec.ofExcept_eq_ofTraced _ ctx) fun _ => ?_
    cases kind with
    | anyOf => exact evaluateUntilIn?_eq env mail true tests ctx
    | allOf => exact evaluateUntilIn?_eq env mail false tests ctx
    | negation => exact Exec.bind_ofTraced (evaluateUntilIn?_eq env mail true tests ctx) fun _ => rfl
    | _ => rfl

theorem evaluateUntilIn?_eq (env : Environment) (mail : Mail) (decisive : Bool) :
    ∀ (tests : Option (List Test)) (ctx : Context), env.evaluateUntilIn? mail decisive tests ctx =
      Exec.ofTraced (env.evaluateUntil? ctx.enabled mail decisive tests) ctx
  | none, _ => rfl
  | some tests, ctx => evaluateUntilIn_eq env mail decisive tests ctx

theorem evaluateUntilIn_eq (env : Environment) (mail : Mail) (decisive : Bool) :
    ∀ (tests : List Test) (ctx : Context), env.evaluateUntilIn mail decisive tests ctx =
      Exec.ofTraced (env.evaluateUntil ctx.enabled mail decisive tests) ctx
  | [], _ => rfl
  | t :: ts, ctx => by
    rw [evaluateUntilIn, evaluateUntil]
    refine Exec.bind_ofTraced (evaluateIn_eq env mail t ctx) fun value => ?_
    split
    · rfl
    · exact evaluateUntilIn_eq env mail decisive ts ctx
end

theorem evaluateIn_context (env : Environment) (mail : Mail) (t : Test) (ctx : Context) :
    (env.evaluateIn mail t ctx).context = ctx := by
  rw [evaluateIn_eq]
  rfl

end Environment

/-! ## Sequences of operations -/

inductive Operation
  | addAction (a : Action)
  | enable (capability : String)
  | setBranch (branch : Branch)
  | runCommand (c : Command)
  | runCommands (commands : List Command)
  | runBlock (commands : List Command)
  | evaluate (t : Test)

inductive Answer
  | done
  | flow (flow : Flow)
  | truth (value : Bool)

namespace Operation

def run (env : Environment) (mail : Mail) : Operation → Exec Answer
  | addAction a => do
    Exec.addAction a
    return .done
  | enable capability => do
    Exec.modify (·.enable capability)
    return .done
  | setBranch branch => do
    Exec.modify ({ · with branch })
    return .done
  | runCommand c => return .flow (← env.runCommand mail c)
  | runCommands commands => return .flow (← env.runCommands mail commands)
  | runBlock commands => return .flow (← Exec.block (env.runCommands mail commands))
  | evaluate t => return .truth (← env.evaluateIn mail t)

theorem run_grows (env : Environment) (mail : Mail) (op : Operation) : (op.run env mail).Grows := by
  cases op with
  | addAction a => exact .bind (.addAction a) fun _ => .pure _
  | enable capability => exact .bind (.modify fun ctx => .enable ctx capability) fun _ => .pure _
  | setBranch branch => exact .bind (.setBranch branch) fun _ => .pure _
  | runCommand c => exact .bind (env.runCommand_grows mail c) fun _ => .pure _
  | runCommands commands => exact .bind (env.runCommands_grows mail commands) fun _ => .pure _
  | runBlock commands => exact .bind (env.runCommands_grows mail commands).block fun _ => .pure _
  | evaluate t => exact .bind (fun ctx => by rw [env.evaluateIn_context]; exact .refl ctx) fun _ => .pure _

/-- The context after a sequence of operations on a new one. An operation that
fails leaves its context to the next. -/
def contextAfter (env : Environment) (mail : Mail) (ops : List Operation) : Context :=
  ops.foldl (fun ctx op => (op.run env mail ctx).context) {}

theorem rejectAlone_contextAfter (env : Environment) (mail : Mail) (ops : List Operation) :
    RejectAlone (contextAfter env mail ops).actions := by
  have step : ∀ (ops : List Operation) (ctx : Context), RejectAlone ctx.actions →
      RejectAlone (ops.foldl (fun ctx op => (op.run env mail ctx).context) ctx).actions := by
    intro ops
    induction ops with
    | nil => intro ctx h; exact h
    | cons op ops ih => intro ctx h; exact ih _ ((op.run_grows env mail ctx).alone h)
  exact step ops {} fun a ha => nomatch ha

theorem runBlock_context (env : Environment) (mail : Mail) (commands : List Command) (ctx : Context) :
    ((runBlock commands).run env mail ctx).context =
      (env.runCommands mail commands ctx.enterBlock).context.leaveBlock ctx :=
  bind_pure_context (Exec.block (env.runCommands mail commands)) _ ctx

theorem evaluate_context (env : Environment) (mail : Mail) (t : Test) (ctx : Context) :
    ((evaluate t).run env mail ctx).context = ctx :=
  (bind_pure_context (env.evaluateIn mail t) _ ctx).trans (env.evaluateIn_context mail t ctx)

/-- After any sequence of operations, one more operation keeps the actions and
adds to them at most, leaves a rejection alone, and disables nothing. A block
leaves the chain of its surroundings as it was, and a test leaves everything. -/
theorem contextAfter_invariants (env : Environment) (mail : Mail) (ops : List Operation) (op : Operation) :
    let before := contextAfter env mail ops
    let after := contextAfter env mail (ops ++ [op])
    before.actions <+: after.actions ∧ RejectAlone after.actions ∧ before.enabled ⊆ after.enabled ∧
      (∀ commands, op = .runBlock commands →
        after.branch = before.branch ∧ after.preceding = before.preceding) ∧
      (∀ t, op = .evaluate t → after = before) := by
  intro before after
  have hafter : after = (op.run env mail before).context := by
    simp [after, before, contextAfter]
  have hgrows : before.Extends after := hafter ▸ op.run_grows env mail before
  refine ⟨hgrows.actions, rejectAlone_contextAfter env mail _, hgrows.enabled, ?_, ?_⟩
  · rintro commands rfl
    rw [hafter, runBlock_context]
    exact ⟨rfl, rfl⟩
  · rintro t rfl
    rw [hafter]
    exact evaluate_context env mail t before

end Operation

end MailSieve
