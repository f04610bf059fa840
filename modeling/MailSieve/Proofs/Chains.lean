import MailSieve.Proofs.Acceptance
import MailSieve.Proofs.StandardNames

/-!
# Chains of conditionals

A second way to run a script. Each sequence is grouped first: an `if` with the
`elsif`s and the `else` directly after it is one conditional, whose arms are
tried in order. Nothing is passed from one statement to the next but the actions
and capabilities gathered so far. Accepted scripts come to the same in both ways,
so the branch state of a context does what it is meant to do.
-/

namespace MailSieve

/-! ## Grouped sequences -/

mutual
inductive Program
  | done
  | plain (c : Command) (rest : Program)
  | conditional (arms : Arms) (rest : Program)
inductive Arms
  | none
  | otherwise (block : Program)
  | arm (test : Test) (block : Program) (rest : Arms)
end

/-- A sequence read in two ways: by itself, and as what follows an `if`. -/
structure Grouping where
  alone : Program
  arms : Arms
  rest : Program

namespace Grouping

def empty : Grouping := ⟨.done, .none, .done⟩

def cons (c : Command) (block : Program) (next : Grouping) : Grouping :=
  match c.name, c.tests with
  | "if", some [test] =>
    let whole := .conditional (.arm test block next.arms) next.rest
    ⟨whole, .none, whole⟩
  | "elsif", some [test] => ⟨.plain c next.alone, .arm test block next.arms, next.rest⟩
  | "else", _ => ⟨.plain c next.alone, .otherwise block, next.alone⟩
  | _, _ => ⟨.plain c next.alone, .none, .plain c next.alone⟩

end Grouping

mutual
def Command.blockProgram : Command → Program
  | ⟨_, _, _, block, _⟩ => Program.ofBlock block
def Program.ofBlock : Option (List Command) → Program
  | none => .done
  | some commands => (Grouping.ofCommands commands).alone
def Grouping.ofCommands : List Command → Grouping
  | [] => .empty
  | c :: cs => .cons c c.blockProgram (Grouping.ofCommands cs)
end

def Program.ofScript (script : Script) : Program :=
  (Grouping.ofCommands script).alone

/-! ## Running them -/

structure Ledger where
  actions : List Action := []
  enabled : List String := []

def Context.ledger (ctx : Context) : Ledger := ⟨ctx.actions, ctx.enabled⟩

def Ledger.context (l : Ledger) : Context := { actions := l.actions, enabled := l.enabled }

/-- How a run went: what it has gathered, the host tests it evaluated, and whether
it goes on, stopped or failed. -/
structure Trail where
  ledger : Ledger
  reached : List Test
  result : Except Error Flow

def Run.trail (r : Run Flow) : Trail := ⟨r.context.ledger, r.reached, r.result⟩

namespace Trail

def after (t : Trail) (reached : List Test) : Trail := { t with reached := reached ++ t.reached }

def andThen (t : Trail) (next : Ledger → Trail) : Trail :=
  match t.result with
  | .ok .next => (next t.ledger).after t.reached
  | _ => t

end Trail

def Environment.runPlain (env : Environment) (c : Command) (l : Ledger) : Trail :=
  Run.trail (Exec.locate (do
    let kind ← Exec.ofExcept (env.commands.lookup c.name)
    Exec.ofExcept (liftShape (kind.check c))
    let ctx ← Exec.get
    Exec.ofExcept (env.checkEnabled ctx.enabled .command c.name kind.isExtension)
    env.runSimple kind c) c.position l.context)

mutual
def Program.run (env : Environment) (mail : Mail) : Program → Ledger → Trail
  | .done, l => ⟨l, [], .ok .next⟩
  | .plain c rest, l => (env.runPlain c l).andThen (rest.run env mail)
  | .conditional arms rest, l => (arms.run env mail l).andThen (rest.run env mail)
/-- Runs the block of the first arm whose test holds. -/
def Arms.run (env : Environment) (mail : Mail) : Arms → Ledger → Trail
  | .none, l => ⟨l, [], .ok .next⟩
  | .otherwise block, l => block.run env mail l
  | .arm test block rest, l =>
    let value := env.evaluate l.enabled mail test
    match value.result with
    | .ok true => (block.run env mail l).after value.reached
    | .ok false => (rest.run env mail l).after value.reached
    | .error e => ⟨l, value.reached, .error e⟩
end

def Program.execute (env : Environment) (mail : Mail) (program : Program) : Execution :=
  let t := program.run env mail {}
  ⟨t.ledger.actions, t.reached, t.result⟩

/-! ## Parts of a grouping -/

namespace Grouping

section
variable {c : Command} {test : Test} (block : Program) (next : Grouping)

theorem cons_if (hn : c.name = "if") (ht : c.tests = some [test]) :
    cons c block next = ⟨.conditional (.arm test block next.arms) next.rest, .none,
      .conditional (.arm test block next.arms) next.rest⟩ := by
  simp only [cons, hn, ht]

theorem cons_elsif (hn : c.name = "elsif") (ht : c.tests = some [test]) :
    cons c block next = ⟨.plain c next.alone, .arm test block next.arms, next.rest⟩ := by
  simp only [cons, hn, ht]

theorem cons_else (hn : c.name = "else") :
    cons c block next = ⟨.plain c next.alone, .otherwise block, next.alone⟩ := by
  simp only [cons, hn]

theorem cons_plain (hif : c.name ≠ "if") (helsif : c.name ≠ "elsif") (helse : c.name ≠ "else") :
    cons c block next = ⟨.plain c next.alone, .none, .plain c next.alone⟩ := by
  unfold cons
  split
  · contradiction
  · contradiction
  · contradiction
  · rfl

end

/-- What is to be run, given what the command before has told. -/
def resume (g : Grouping) : Branch → Program
  | .none => g.alone
  | .pending => .conditional g.arms g.rest
  | .taken => g.rest

end Grouping

/-! ## Trails -/

namespace Trail

@[simp] theorem after_nil (t : Trail) : t.after [] = t := rfl

theorem after_andThen (t : Trail) (reached : List Test) (next : Ledger → Trail) :
    (t.after reached).andThen next = (t.andThen next).after reached := by
  rcases t with ⟨l, reached', e | flow⟩
  · rfl
  · cases flow
    · simp [andThen, after]
    · rfl

theorem next_andThen (l : Ledger) (reached : List Test) (next : Ledger → Trail) :
    (⟨l, reached, .ok .next⟩ : Trail).andThen next = (next l).after reached := rfl

end Trail

namespace Environment

section
variable {env : Environment} {mail : Mail} {ctx : Context} {c : Command} {cs : List Command}

theorem runCommands_cons_trail {next : Ledger → Trail}
    (h : (env.runCommand mail c ctx).result = .ok .next →
      (env.runCommands mail cs (env.runCommand mail c ctx).context).trail =
        next (env.runCommand mail c ctx).context.ledger) :
    (env.runCommands mail (c :: cs) ctx).trail = (env.runCommand mail c ctx).trail.andThen next := by
  rw [runCommands_cons, Exec.bind_apply]
  cases hr : (env.runCommand mail c ctx).result with
  | error e => simp only [Run.trail, Trail.andThen, hr]
  | ok flow =>
    cases flow with
    | stop => simp [Run.trail, Trail.andThen, hr]
    | next =>
      have hnext := h hr
      simp only [Run.trail, Trail.andThen, hr] at hnext ⊢
      rw [← hnext]
      rfl

/-! ## Errors that have their place -/

theorem evaluate_error_locate {enabled : List String} {t : Test} {e : Error}
    (h : (env.evaluate enabled mail t).result = .error e) (p : Position) : e.locate p = e := by
  cases t
  rw [evaluate] at h
  obtain ⟨e', -, rfl⟩ := error_of_mapError h
  exact e'.locate_locate _ _

theorem runCommands_error_locate (p : Position) : ∀ {cs : List Command} {ctx : Context} {e : Error},
    (env.runCommands mail cs ctx).result = .error e → e.locate p = e
  | [], _, _, h => nomatch h
  | c :: cs, ctx, e, h => by
    rw [runCommands_cons, Exec.bind_apply] at h
    cases hr : (env.runCommand mail c ctx).result with
    | error e' =>
      simp only [hr] at h
      cases h
      exact runCommand_error_locate hr p
    | ok flow =>
      simp only [hr] at h
      cases flow with
      | stop => cases h
      | next => exact runCommands_error_locate p h

theorem runBlock?_located (block : Option (List Command)) (p : Position) :
    (Exec.block (env.runBlock? mail block) ctx).result.mapError (·.locate p) =
      (Exec.block (env.runBlock? mail block) ctx).result := by
  refine mapError_of_forall fun e h => ?_
  cases block with
  | none => cases h
  | some cs => exact runCommands_error_locate p h

end

end Environment

/-! ## Commands that ignore the chain -/

/-- The computation neither reads nor changes what is told about a chain. -/
def Exec.Unchained (x : Exec α) : Prop := x.block = x

namespace Exec.Unchained

theorem pure (a : α) : Unchained (Pure.pure a) := rfl

theorem ofExcept (r : Except Error α) : Unchained (Exec.ofExcept r) := rfl

theorem addAction (a : Action) : Unchained (Exec.addAction a) := by
  funext ctx
  by_cases h : ctx.actions ≠ [] ∧ (a.isReject = true ∨ ctx.actions.any Action.isReject = true)
  · have hout : ctx.addAction a = .error .rejectNotAlone := if_pos h
    have hin : ctx.enterBlock.addAction a = .error .rejectNotAlone := if_pos h
    simp only [Exec.block, Exec.addAction, hout, hin]
    rfl
  · have hout : ctx.addAction a = .ok { ctx with actions := ctx.actions ++ [a] } := if_neg h
    have hin : ctx.enterBlock.addAction a = .ok { ctx.enterBlock with actions := ctx.actions ++ [a] } :=
      if_neg h
    simp only [Exec.block, Exec.addAction, hout, hin]
    rfl

theorem enable (name : String) : Unchained (Exec.modify (·.enable name)) := rfl

theorem bind {x : Exec α} {f : α → Exec β} (hx : Unchained x) (hf : ∀ a, Unchained (f a)) :
    Unchained (x >>= f) := by
  funext ctx
  have hxc : x ctx = x.block ctx := (congrFun hx ctx).symm
  rw [Exec.bind_apply, hxc, Exec.block, Exec.bind_apply]
  simp only [Exec.block]
  cases (x ctx.enterBlock).result with
  | error e => rfl
  | ok a =>
    -- both runs of `f a` are the one that starts outside any chain
    have hin : ∀ ctx', f a ctx' = (f a).block ctx' := fun ctx' => (congrFun (hf a) ctx').symm
    simp only
    rw [hin (x ctx.enterBlock).context, hin ((x ctx.enterBlock).context.leaveBlock ctx)]
    rfl

theorem get_bind {f : List String → Exec α} (hf : ∀ enabled, Unchained (f enabled)) :
    Unchained (Exec.get >>= fun ctx => f ctx.enabled) := by
  funext ctx
  exact congrFun (hf ctx.enabled) ctx

theorem locate {x : Exec α} (hx : Unchained x) (p : Position) : Unchained (x.locate p) := by
  funext ctx
  show (x.block).locate p ctx = x.locate p ctx
  rw [hx]

theorem branch {x : Exec α} (hx : Unchained x) (ctx : Context) :
    (x ctx).context.branch = ctx.branch := by
  rw [← congrFun hx ctx]
  rfl

theorem trail {x : Exec Flow} (hx : Unchained x) (ctx : Context) :
    (x ctx).trail = (x ctx.ledger.context).trail := by
  rw [← congrFun hx ctx]
  rfl

end Exec.Unchained

namespace Environment

theorem fileInto_unchained (mailbox : String) : (fileInto mailbox).Unchained := by
  funext ctx
  show (if ctx.isFiled mailbox then pure () else Exec.addAction (.fileInto mailbox)).block ctx = _
  simp only [fileInto, Exec.get_bind]
  split
  · rfl
  · exact congrFun (Exec.Unchained.addAction _) ctx

theorem enableAll_unchained (env : Environment) : ∀ names, (env.enableAll names).Unchained
  | [] => .pure ()
  | name :: names => by
    unfold enableAll
    split
    · exact .bind (.enable name) fun _ => env.enableAll_unchained names
    · exact .ofExcept _

theorem runSimple_unchained (env : Environment) (kind : CommandKind) (c : Command) :
    (env.runSimple kind c).Unchained := by
  cases kind with
  | keep | discard => exact .bind (.addAction _) fun _ => .pure _
  | redirect | reject => exact .bind (.ofExcept _) fun _ => .bind (.addAction _) fun _ => .pure _
  | fileInto =>
    exact .bind (.ofExcept _) fun mailbox => .bind (fileInto_unchained mailbox) fun _ => .pure _
  | require =>
    exact .bind (.ofExcept _) fun names => .bind (env.enableAll_unchained names) fun _ => .pure _
  | stop | ifThen | elseIf | otherwise => exact .pure _

/-! ## One command of a chain -/

section
variable {env : Environment} {mail : Mail} {ctx : Context} {c : Command} {kind : CommandKind}

/-- A command that is no conditional does the same outside any chain, and breaks the
chain it stands in. -/
theorem runCommand_plain (hlook : env.commands.lookup c.name = .ok kind)
    (hsimple : env.perform mail kind c = env.runSimple kind c) :
    (env.runCommand mail c ctx).trail = env.runPlain c ctx.ledger ∧
      (env.runCommand mail c ctx).context.branch = .none := by
  have hunchained : Exec.Unchained (Exec.locate (do
      Exec.ofExcept (liftShape (kind.check c))
      let ctx ← Exec.get
      Exec.ofExcept (env.checkEnabled ctx.enabled .command c.name kind.isExtension)
      env.runSimple kind c) c.position) :=
    .locate (.bind (.ofExcept _) fun _ => .get_bind (f := fun enabled => do
        Exec.ofExcept (env.checkEnabled enabled .command c.name kind.isExtension)
        env.runSimple kind c)
      fun _ => .bind (.ofExcept _) fun _ => env.runSimple_unchained kind c) _
  rw [runCommand_eq]
  simp only [runPlain, hlook, Exec.ofExcept_ok_bind, hsimple]
  exact ⟨hunchained.trail ctx.enterCommand, hunchained.branch ctx.enterCommand⟩

theorem locate_runArm_error {t : Test} {e : Error} (h : (env.evaluate ctx.enabled mail t).result = .error e)
    (block : Option (List Command)) (p : Position) :
    (env.runArm mail t block).locate p ctx = ⟨ctx, (env.evaluate ctx.enabled mail t).reached, .error e⟩ := by
  simp only [Exec.locate, runArm_error h, Except.mapError, evaluate_error_locate h]

theorem locate_runArm_true {t : Test} (h : (env.evaluate ctx.enabled mail t).result = .ok true)
    (block : Option (List Command)) (p : Position) :
    ((env.runArm mail t block).locate p ctx).trail =
        (Exec.block (env.runBlock? mail block) ctx).trail.after (env.evaluate ctx.enabled mail t).reached ∧
      ∀ {flow}, ((env.runArm mail t block).locate p ctx).result = .ok flow →
        ((env.runArm mail t block).locate p ctx).context.branch = .taken := by
  have hlocated : (Exec.block (env.runBlock? mail block) ctx).result.mapError (·.locate p) = _ :=
    runBlock?_located block p
  simp only [Exec.locate, runArm_true h rfl, hlocated]
  cases hb : (Exec.block (env.runBlock? mail block) ctx).result with
  | error e =>
    refine ⟨by simp only [Run.trail, Trail.after, hb], fun hflow => ?_⟩
    cases hflow
  | ok flow =>
    refine ⟨?_, fun _ => rfl⟩
    simp only [Run.trail, Trail.after, hb]
    rfl

/-- After a command that left `b`, the sequence does what its grouping says. -/
def Follows (env : Environment) (mail : Mail) (cs : List Command) (g : Grouping) (b : Branch) : Prop :=
  ∀ ctx : Context, ctx.branch = b →
    (env.runCommands mail cs ctx).trail = (g.resume b).run env mail ctx.ledger

theorem runCommands_cons_branch {cs : List Command} {g : Grouping} {b : Branch}
    (hb : (env.runCommand mail c ctx).result = .ok .next → (env.runCommand mail c ctx).context.branch = b)
    (hrest : env.Follows mail cs g b) :
    (env.runCommands mail (c :: cs) ctx).trail =
      (env.runCommand mail c ctx).trail.andThen ((g.resume b).run env mail) :=
  runCommands_cons_trail fun hok => hrest _ (hb hok)

theorem runCommands_skip {cs : List Command} {g : Grouping} {b : Branch}
    (hperform : env.perform mail kind c ctx.enterCommand =
      ⟨{ ctx.enterCommand with branch := b }, [], .ok .next⟩)
    (hrun : env.runCommand mail c ctx = Exec.locate (env.perform mail kind c) c.position ctx.enterCommand)
    (hrest : env.Follows mail cs g b) :
    (env.runCommands mail (c :: cs) ctx).trail = (g.resume b).run env mail ctx.ledger := by
  simp only [Exec.locate, hperform] at hrun
  have hb : (env.runCommand mail c ctx).context.branch = b := by rw [hrun]
  rw [runCommands_cons_branch (fun _ => hb) hrest, hrun]
  rfl

/-- An arm whose turn has come, in front of the other arms. -/
theorem runCommands_arm {t : Test} {cs : List Command} {block : Program} {g : Grouping}
    (hrun : env.runCommand mail c ctx = Exec.locate (env.runArm mail t c.block) c.position ctx.enterCommand)
    (hblock : (Exec.block (env.runBlock? mail c.block) ctx.enterCommand).trail =
      block.run env mail ctx.ledger)
    (hrest : ∀ {b}, b ≠ .none → env.Follows mail cs g b) :
    (env.runCommands mail (c :: cs) ctx).trail =
      (Program.conditional (.arm t block g.arms) g.rest).run env mail ctx.ledger := by
  simp only [Program.run, Arms.run, show ctx.ledger.enabled = ctx.enterCommand.enabled from rfl]
  -- the three values of the test leave the chain closed by the error, pending and taken
  cases hv : (env.evaluate ctx.enterCommand.enabled mail t).result with
  | error e =>
    rw [locate_runArm_error hv] at hrun
    rw [runCommands_cons_branch (by rw [hrun]; exact nofun) (hrest (b := .taken) nofun), hrun]
    rfl
  | ok b =>
    cases b with
    | false =>
      have hpending : (env.runCommand mail c ctx).context.branch = .pending := by
        rw [hrun, Exec.locate_context, runArm_false hv]
      rw [runCommands_cons_branch (fun _ => hpending) (hrest nofun), hrun]
      simp only [Exec.locate, runArm_false hv, Trail.after_andThen]
      rfl
    | true =>
      obtain ⟨htrail, htaken⟩ := locate_runArm_true hv c.block c.position
      rw [← hrun] at htrail htaken
      rw [runCommands_cons_branch htaken (hrest nofun), htrail, hblock]
      rfl

theorem conditional_none_run (rest : Program) (l : Ledger) :
    (Program.conditional .none rest).run env mail l = rest.run env mail l := by
  simp only [Program.run, Arms.run, Trail.next_andThen, Trail.after_nil]

/-- A sequence that nothing before it can lead into. -/
theorem resume_run (whole : Program) (branch : Branch) (l : Ledger) :
    ((Grouping.mk whole .none whole).resume branch).run env mail l = whole.run env mail l := by
  cases branch with
  | none | taken => rfl
  | pending => exact conditional_none_run whole l

/-- A command in front of a sequence does what its grouping says. -/
theorem runCommands_cons_resume {en : List String} {p : Place} {cs : List Command} {block : Program}
    {g : Grouping} (hname : c.name = kind.id) (hp : p.check c.name = .ok ())
    (haccepts : AcceptsCommand env en c kind)
    (hchain : p.previous = some "if" ∨ p.previous = some "elsif" → ctx.branch ≠ .none)
    (hblock : (Exec.block (env.runBlock? mail c.block) ctx.enterCommand).trail =
      block.run env mail ctx.ledger)
    (hrest : ∀ {b}, (c.name = "if" ∨ c.name = "elsif" → b ≠ .none) → env.Follows mail cs g b) :
    (env.runCommands mail (c :: cs) ctx).trail =
      ((Grouping.cons c block g).resume ctx.branch).run env mail ctx.ledger := by
  have hcore : kind.isExtension = false →
      env.runCommand mail c ctx = Exec.locate (env.perform mail kind c) c.position ctx.enterCommand := by
    intro hext
    refine runCommand_of_checked haccepts.lookup haccepts.shape ?_ mail
    rw [hext]
    exact checkEnabled_core ..
  -- a simple command ends the chain before it, so what is ahead stands alone
  have plain : env.perform mail kind c = env.runSimple kind c →
      c.name ≠ "if" → c.name ≠ "elsif" → c.name ≠ "else" →
      (env.runCommands mail (c :: cs) ctx).trail =
        ((Grouping.cons c block g).resume ctx.branch).run env mail ctx.ledger := by
    intro hsimple hif helsif helse
    obtain ⟨htrail, hnone⟩ : (env.runCommand mail c ctx).trail = _ ∧ _ :=
      runCommand_plain haccepts.lookup hsimple
    have hlast := hrest (b := .none) fun hn => absurd hn (not_or.2 ⟨hif, helsif⟩)
    rw [Grouping.cons_plain block g hif helsif helse, resume_run,
      runCommands_cons_branch (fun _ => hnone) hlast, htrail]
    rfl
  cases kind with
  | ifThen =>
    obtain ⟨⟨t, commands⟩, hc⟩ := verdict_eq_ok.1 haccepts.shape
    rw [Grouping.cons_if block g hname (Command.conditional_eq_ok.1 hc).2.2, resume_run]
    refine runCommands_arm ?_ hblock fun hb => hrest fun _ => hb
    rw [hcore rfl]
    simp only [Exec.locate, perform_arm (.inl rfl) hc]
  | elseIf =>
    obtain ⟨⟨t, commands⟩, hc⟩ := verdict_eq_ok.1 haccepts.shape
    rw [Grouping.cons_elsif block g hname (Command.conditional_eq_ok.1 hc).2.2]
    rcases Place.open_of_check hp (.inl hname) hchain with hb | hb
    · have hpending : ctx.enterCommand.preceding = .pending := hb
      rw [hb]
      refine runCommands_arm ?_ hblock fun hb => hrest fun _ => hb
      rw [hcore rfl]
      simp only [Exec.locate, perform_arm (.inr ⟨rfl, hpending⟩) hc]
    · rw [hb]
      exact runCommands_skip (perform_elseIf_taken env mail c hb) (hcore rfl) (hrest fun _ => by decide)
  | otherwise =>
    have hlast := hrest (b := .none) (by rw [hname]; decide)
    rw [Grouping.cons_else block g hname]
    rcases Place.open_of_check hp (.inr hname) hchain with hb | hb
    · -- the block runs outside any chain and leaves none behind
      have hpending : ctx.enterCommand.preceding = .pending := hb
      have hrun : env.runCommand mail c ctx = Exec.block (env.runBlock? mail c.block) ctx.enterCommand := by
        rw [hcore rfl]
        simp only [Exec.locate, perform_otherwise_pending env mail c hpending, runBlock?_located]
      have hnone : (env.runCommand mail c ctx).context.branch = .none := by rw [hrun]; rfl
      rw [runCommands_cons_branch (fun _ => hnone) hlast, hrun, hb, hblock]
      simp only [Grouping.resume, Program.run, Arms.run]
    · rw [runCommands_skip (perform_otherwise_taken env mail c hb) (hcore rfl) hlast, hb]
      rfl
  | _ => exact plain rfl (by rw [hname]; decide) (by rw [hname]; decide) (by rw [hname]; decide)

end

/-! ## Whole scripts -/

section
variable {env : Environment} {mail : Mail}

mutual
theorem block_trail (hcommands : env.commands = standard.commands) : ∀ {c : Command} {en en' : List String}
    {ctx : Context}, env.validateBlock? en c.block = .ok en' →
    (Exec.block (env.runBlock? mail c.block) ctx).trail = c.blockProgram.run env mail ctx.ledger
  | ⟨_, _, _, _, _⟩, _, _, _, hok => runBlock?_trail hcommands hok

theorem runBlock?_trail (hcommands : env.commands = standard.commands) : ∀ {block : Option (List Command)}
    {en en' : List String} {ctx : Context}, env.validateBlock? en block = .ok en' →
    (Exec.block (env.runBlock? mail block) ctx).trail = (Program.ofBlock block).run env mail ctx.ledger
  | none, _, _, _, _ => rfl
  | some cs, en, en', ctx, hok => by
    have hrun : (env.runCommands mail cs ctx.enterBlock).trail =
        ((Grouping.ofCommands cs).resume .none).run env mail ctx.ledger :=
      runCommands_trail hcommands (p := .start false) hok nofun
    exact hrun

/-- An accepted sequence does what its grouping says. -/
theorem runCommands_trail (hcommands : env.commands = standard.commands) : ∀ {cs : List Command} {p : Place}
    {en en' : List String} {ctx : Context}, env.validateSequence en p cs = .ok en' →
    (p.previous = some "if" ∨ p.previous = some "elsif" → ctx.branch ≠ .none) →
    (env.runCommands mail cs ctx).trail =
      ((Grouping.ofCommands cs).resume ctx.branch).run env mail ctx.ledger
  | [], _, _, _, _, _, _ => (resume_run .done _ _).symm
  | c :: cs, p, en, en', ctx, hok, hchain => by
    obtain ⟨hp, en₁, hcommand, hrest⟩ := validateSequence_cons_eq_ok.1 hok
    obtain ⟨kind, _, haccepts, -, -, hblock⟩ := validateCommand_eq_ok.1 hcommand
    have hname := standard_commands_lookup_eq_ok.1 (hcommands ▸ haccepts.lookup)
    refine runCommands_cons_resume hname hp haccepts hchain (block_trail hcommands hblock) ?_
    intro b hb ctx' hctx'
    rw [← hctx'] at hb ⊢
    exact runCommands_trail hcommands hrest (by simpa [Place.after] using hb)
end

theorem execute_eq_of_commands (hcommands : env.commands = standard.commands) {script : Script}
    (hok : env.validate script = .ok ()) :
    env.execute script mail = (Program.ofScript script).execute env mail := by
  obtain ⟨en, hseq⟩ := verdict_eq_ok.1 hok
  have htrail : (env.runCommands mail script {}).trail = (Program.ofScript script).run env mail {} :=
    runCommands_trail hcommands hseq nofun
  simp only [execute, hok, Program.execute, ← htrail]
  rfl

end

/-- An accepted script does the same whether its conditionals are linked by the
branch state or grouped beforehand. -/
theorem execute_eq_grouped (strict : Bool) (script : Script) (mail : Mail)
    (hok : (standardWith strict).validate script = .ok ()) :
    (standardWith strict).execute script mail =
      (Program.ofScript script).execute (standardWith strict) mail := by
  have hcommands : (standardWith strict).commands = standard.commands := rfl
  exact execute_eq_of_commands hcommands hok

/-- A chain whose second arm is taken and holds a chain of its own; the third arm asks
for the size. -/
def nestedChain : Script := [
  ⟨"if", [], some [⟨"false", [], none, ⟨1, 4⟩⟩], some [⟨"stop", [], none, none, ⟨1, 12⟩⟩], ⟨1, 1⟩⟩,
  ⟨"elsif", [], some [⟨"true", [], none, ⟨2, 7⟩⟩], some [
    ⟨"if", [], some [⟨"false", [], none, ⟨3, 6⟩⟩], some [], ⟨3, 3⟩⟩,
    ⟨"else", [], none, some [⟨"keep", [], none, none, ⟨4, 10⟩⟩], ⟨4, 3⟩⟩], ⟨2, 1⟩⟩,
  ⟨"elsif", [], some [⟨"size", [.tag ":over", .number 1], none, ⟨5, 7⟩⟩], some [], ⟨5, 1⟩⟩,
  ⟨"discard", [], none, none, ⟨6, 1⟩⟩]

def unreadableMail : Mail where
  header _ := .error (.unsupported "header")
  headerNames := .error (.unsupported "headers")
  size := .error (.unsupported "size")
  envelope _ := .error (.unsupported "envelope")
  bodyContains _ := .error (.unsupported "body")

theorem execute_eq_grouped_nestedChain :
    (standardWith true).validate nestedChain = .ok () ∧
      (Program.ofScript nestedChain).execute (standardWith true) unreadableMail =
        ⟨[.keep, .discard], [], .ok .next⟩ ∧
      (standardWith true).execute nestedChain unreadableMail =
        (Program.ofScript nestedChain).execute (standardWith true) unreadableMail := by
  have hok : (standardWith true).validate nestedChain = .ok () := by rfl
  exact ⟨hok, by rfl, execute_eq_grouped true nestedChain unreadableMail hok⟩

end Environment

end MailSieve