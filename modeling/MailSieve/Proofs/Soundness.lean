import MailSieve.Proofs.Evaluation
import MailSieve.Proofs.Growth
import MailSieve.Proofs.Preorder

/-!
# Accepted scripts do not go wrong

Along a run of an accepted script the context keeps up with the static walk
(`Tracks`): what the walk saw required is enabled, and a chain it saw open is
open. So every check made at run time passes again, and what is left to fail is
the mail and the rule that a rejection stays alone. All that is needed of the
environment is that the control commands stand where the walk looks for them
(`Reliable`), as they do under the standard names.
-/

namespace MailSieve

/-! ## What may go wrong -/

def actionNames : List String := ["keep", "discard", "redirect", "fileinto", "reject"]

/-- One of the commands wanted an action beside a rejection, or a rejection
beside an action. -/
def RejectClash (commands : List Command) (actions : List Action) (e : Error) : Prop :=
  ∃ c ∈ commands, c.name ∈ actionNames ∧ e = .command .rejectNotAlone (some c.position) ∧
    actions ≠ [] ∧ (c.name = "reject" ∨ ∃ message, actions = [.reject message])

/-- What a run of accepted commands may fail with, given the actions it leaves. -/
def RunError (mail : Mail) (commands : List Command) (actions : List Action) (e : Error) : Prop :=
  e.IsMailFailure mail ∨ RejectClash commands actions e

namespace Environment

/-- One of the commands, whatever its name, stands for an action beside a rejection, or for
a rejection beside an action. -/
def Clashes (env : Environment) (commands : List Command) (actions : List Action) (e : Error) : Prop :=
  ∃ c ∈ commands, ∃ kind, env.commands.lookup c.name = .ok kind ∧ kind.id ∈ actionNames ∧
    e = .command .rejectNotAlone (some c.position) ∧ actions ≠ [] ∧
    (kind = .reject ∨ ∃ message, actions = [.reject message])

def LateError (env : Environment) (mail : Mail) (commands : List Command) (actions : List Action)
    (e : Error) : Prop :=
  e.IsMailFailure mail ∨ env.Clashes commands actions e

section
variable {env : Environment} {mail : Mail} {cs ds : List Command} {actions : List Action} {e : Error}

theorem LateError.mono (hsub : cs ⊆ ds) (h : env.LateError mail cs actions e) :
    env.LateError mail ds actions e := by
  rcases h with h | ⟨c, hc, h⟩
  · exact .inl h
  · exact .inr ⟨c, hsub hc, h⟩

theorem LateError.locate (h : env.LateError mail cs actions e) (p : Position) : e.locate p = e := by
  rcases h with ⟨m, rfl, -⟩ | ⟨c, -, kind, -, -, rfl, -⟩
  · rfl
  · rfl

theorem LateError.runError (hcommands : env.commands = standard.commands)
    (h : env.LateError mail cs actions e) : RunError mail cs actions e := by
  rcases h with h | ⟨c, hc, kind, hlook, hmem, rfl, hne, hr⟩
  · exact .inl h
  · rw [hcommands, standard_commands_lookup_eq_ok] at hlook
    refine .inr ⟨c, hc, hlook ▸ hmem, rfl, hne, hr.imp_left ?_⟩
    rintro rfl
    exact hlook

end

end Environment

theorem RejectAlone.eq_singleton {actions : List Action} (h : RejectAlone actions) {a : Action}
    (ha : a ∈ actions) (hr : a.isReject = true) : ∃ message, actions = [.reject message] := by
  obtain ⟨b, rfl⟩ := List.length_eq_one_iff.1 (h a ha hr)
  rw [List.mem_singleton.1 ha] at hr
  cases b with
  | reject message => exact ⟨message, rfl⟩
  | _ => cases hr

/-! ## Simple commands -/

structure Refused (ctx : Context) (rejects : Prop) (r : Run α) : Prop where
  context : r.context = ctx
  result : r.result = .error (.command .rejectNotAlone none)
  actions : ctx.actions ≠ []
  clash : rejects ∨ ∃ message, ctx.actions = [.reject message]

theorem addAction_result {ctx : Context} (halone : RejectAlone ctx.actions) (a : Action) :
    (Exec.addAction a ctx).result = .ok () ∨ Refused ctx (a.isReject = true) (Exec.addAction a ctx) := by
  unfold Exec.addAction
  split
  · exact .inl rfl
  · next fault h =>
    obtain ⟨rfl, hne, hr⟩ := Context.addAction_eq_error h
    exact .inr ⟨rfl, rfl, hne, hr.imp_right fun ⟨b, hb, hbr⟩ => halone.eq_singleton hb hbr⟩

theorem Refused.bind {ctx : Context} {rejects : Prop} {x : Exec α} (h : Refused ctx rejects (x ctx))
    (f : α → Exec β) : Refused ctx rejects ((x >>= f) ctx) := by
  rw [Exec.bind_apply, h.result]
  exact ⟨h.context, rfl, h.actions, h.clash⟩

theorem Refused.imp {ctx : Context} {P Q : Prop} {r : Run α} (h : Refused ctx P r) (hpq : P → Q) :
    Refused ctx Q r :=
  ⟨h.context, h.result, h.actions, h.clash.imp_left hpq⟩

namespace Environment

theorem enableAll_of_requireAll {env : Environment} {names : List String} : ∀ {en en' : List String}
    {ctx : Context}, en ⊆ ctx.enabled → env.requireAll en names = .ok en' →
    (env.enableAll names ctx).result = .ok () ∧ en' ⊆ (env.enableAll names ctx).context.enabled := by
  induction names with
  | nil =>
    intro en en' ctx hsub h
    cases h
    exact ⟨rfl, hsub⟩
  | cons name names ih =>
    intro en en' ctx hsub h
    unfold requireAll at h
    unfold enableAll
    split at h
    · next hav =>
      have hsub' : en.insert name ⊆ (ctx.enable name).enabled := by
        intro x hx
        rcases List.mem_insert_iff.1 hx with rfl | hx
        · exact List.mem_insert_self
        · exact List.mem_insert_of_mem (hsub hx)
      simpa [hav] using ih hsub' h
    · cases h

theorem fileInto_result {ctx : Context} (halone : RejectAlone ctx.actions) (mailbox : String) :
    (fileInto mailbox ctx).result = .ok () ∨ Refused ctx False (fileInto mailbox ctx) := by
  simp only [fileInto, Exec.get_bind]
  split
  · exact .inl rfl
  · exact (addAction_result halone _).imp_right fun h => h.imp fun hr => nomatch hr

/-- A simple command other than `require` goes through, or its action is refused. -/
theorem runSimple_result {env : Environment} {kind : CommandKind} {c : Command} {ctx : Context}
    (hshape : kind.check c = .ok ()) (hkind : kind ≠ .require) (halone : RejectAlone ctx.actions) :
    (∃ flow, (env.runSimple kind c ctx).result = .ok flow) ∨
      kind.id ∈ actionNames ∧ Refused ctx (kind = .reject) (env.runSimple kind c ctx) := by
  have act : ∀ {x : Exec Unit} {rejects : Prop}, (x ctx).result = .ok () ∨ Refused ctx rejects (x ctx) →
      (rejects → kind = .reject) → kind.id ∈ actionNames →
      (∃ flow, ((x >>= fun _ => pure Flow.next) ctx).result = .ok flow) ∨
        kind.id ∈ actionNames ∧ Refused ctx (kind = .reject) ((x >>= fun _ => pure Flow.next) ctx) := by
    intro x rejects h hrejects hmem
    rcases h with h | h
    · exact .inl ⟨.next, by rw [Exec.bind_apply, h]; rfl⟩
    · exact .inr ⟨hmem, (h.imp hrejects).bind _⟩
  cases kind with
  | keep => exact act (addAction_result halone .keep) (absurd · Bool.false_ne_true) (by decide)
  | discard => exact act (addAction_result halone .discard) (absurd · Bool.false_ne_true) (by decide)
  | redirect =>
    obtain ⟨s, hs⟩ := verdict_eq_ok.1 hshape
    obtain ⟨address, haddress⟩ := Command.operand_of_redirectAddress hs
    simp only [runSimple, haddress, liftShape, Exec.ofExcept_ok_bind]
    exact act (addAction_result halone (.redirect address)) (absurd · Bool.false_ne_true) (by decide)
  | reject =>
    obtain ⟨message, hs⟩ := verdict_eq_ok.1 hshape
    have hrun : env.runSimple .reject c = (Exec.addAction (.reject message) >>= fun _ => pure Flow.next) := by
      simp only [runSimple, Command.operand_of_action hs, liftShape, Exec.ofExcept_ok_bind]
      rfl
    rw [hrun]
    exact act (addAction_result halone (.reject message)) (fun _ => rfl) (by decide)
  | fileInto =>
    obtain ⟨mailbox, hs⟩ := verdict_eq_ok.1 hshape
    simp only [runSimple, Command.operand_of_action hs, liftShape, Exec.ofExcept_ok_bind]
    exact act (fileInto_result halone mailbox) False.elim (by decide)
  | require => exact absurd rfl hkind
  | stop | ifThen | elseIf | otherwise => exact .inl ⟨_, rfl⟩

/-! ## One command -/

structure Tracks (en : List String) (p : Place) (ctx : Context) : Prop where
  enabled : en ⊆ ctx.enabled
  chain : p.previous = some "if" ∨ p.previous = some "elsif" → ctx.branch ≠ .none
  alone : RejectAlone ctx.actions

/-- What stands under a name, as far as the static walk goes by the name alone: where
`require` and the later arms of a chain stand, and which commands open a chain. -/
structure Controls (name : String) (kind : CommandKind) : Prop where
  require : kind = .require ↔ name = requireName
  arm : kind = .elseIf ∨ kind = .otherwise → name = "elsif" ∨ name = "else"
  opening : name = "if" ∨ name = "elsif" → kind = .ifThen ∨ kind = .elseIf

theorem controls_id (kind : CommandKind) : Controls kind.id kind := by
  cases kind <;> exact ⟨by decide, by decide, by decide⟩

section
variable {env : Environment} {mail : Mail} {en en' : List String} {p : Place} {c : Command}
  {kind : CommandKind} {ctx : Context}

theorem AcceptsCommand.runCommand (h : AcceptsCommand env en c kind) (hsub : en ⊆ ctx.enabled) :
    env.runCommand mail c ctx = Exec.locate (env.perform mail kind c) c.position ctx.enterCommand :=
  runCommand_of_checked h.lookup h.shape (checkEnabled_mono hsub h.enabled) mail

/-- A chain that continues has been opened. -/
theorem Tracks.open_chain (h : Tracks en p ctx) (hp : p.check c.name = .ok ())
    (hn : c.name = "elsif" ∨ c.name = "else") :
    ctx.enterCommand.preceding = .pending ∨ ctx.enterCommand.preceding = .taken :=
  Place.open_of_check hp hn h.chain

theorem runArm_branch {t : Test} {block : Option (List Command)} {flow : Flow}
    (h : (env.runArm mail t block ctx).result = .ok flow) :
    (env.runArm mail t block ctx).context.branch ≠ .none := by
  cases ht : (env.evaluate ctx.enabled mail t).result with
  | error e => rw [runArm_error ht] at h; cases h
  | ok b =>
    cases b with
    | false => rw [runArm_false ht]; exact nofun
    | true =>
      rw [runArm_true ht rfl] at h ⊢
      simp only at h ⊢
      rw [h]
      exact nofun

structure FailsIn (part r : Run Flow) (e : Error) : Prop where
  result : part.result = .error e
  context : r.context = part.context

theorem runArm_result {t : Test} {block : Option (List Command)} {e : Error}
    (hready : env.Ready en ctx.enabled) (ht : env.validateTest en t = .ok ())
    (h : (env.runArm mail t block ctx).result = .error e) :
    e.IsMailFailure mail ∨
      FailsIn (Exec.block (env.runBlock? mail block) ctx) (env.runArm mail t block ctx) e := by
  cases hv : (env.evaluate ctx.enabled mail t).result with
  | error e' =>
    rw [runArm_error hv] at h
    cases h
    exact .inl (evaluate_error hready ht hv)
  | ok b =>
    cases b with
    | false => rw [runArm_false hv] at h; cases h
    | true =>
      rw [runArm_true hv rfl] at h ⊢
      refine .inr ⟨h, ?_⟩
      simp only at h ⊢
      rw [h]

theorem runSimple_require (hname : c.name = CommandKind.require.id) (hreq : Requires env en c en')
    (hsub : en ⊆ ctx.enabled) :
    (env.runSimple .require c ctx).result = .ok .next ∧
      en' ⊆ (env.runSimple .require c ctx).context.enabled := by
  rw [Requires, if_pos (show c.name = requireName from hname)] at hreq
  obtain ⟨names, hnames, hall⟩ := hreq
  obtain ⟨hok, hen⟩ := enableAll_of_requireAll hsub hall
  have hrun : env.runSimple .require c ctx = (env.enableAll names >>= fun _ => pure Flow.next) ctx := by
    simp only [runSimple, hnames, liftShape, Exec.ofExcept_ok_bind]
    rfl
  rw [hrun, Exec.bind_apply, hok]
  exact ⟨rfl, hen⟩

/-- Why a command other than `require` fails once its checks have passed: the mail, its
block, or an action of its own. -/
theorem perform_result {e : Error} (hcontrols : Controls c.name kind) (hshape : kind.check c = .ok ())
    (hkind : kind ≠ .require) (hp : p.check c.name = .ok ()) (htracks : Tracks en p ctx)
    (hready : env.Ready en ctx.enabled) (htests : env.validateTests? en c.tests = .ok ())
    (h : (env.perform mail kind c ctx.enterCommand).result = .error e) :
    e.IsMailFailure mail ∨
      FailsIn (Exec.block (env.runBlock? mail c.block) ctx.enterCommand)
        (env.perform mail kind c ctx.enterCommand) e ∨
      kind.id ∈ actionNames ∧
        Refused ctx.enterCommand (kind = .reject) (env.perform mail kind c ctx.enterCommand) := by
  have arm : ∀ {t block}, c.conditional = .ok (t, block) →
      env.perform mail kind c ctx.enterCommand = env.runArm mail t c.block ctx.enterCommand →
      e.IsMailFailure mail ∨
        FailsIn (Exec.block (env.runBlock? mail c.block) ctx.enterCommand)
          (env.perform mail kind c ctx.enterCommand) e := by
    intro t block hc hperform
    rw [hperform] at h ⊢
    have ht : env.validateTest en t = .ok () := by
      rw [(Command.conditional_eq_ok.1 hc).2.2] at htests
      exact validateTests_eq_ok.1 htests t List.mem_cons_self
    exact runArm_result hready ht h
  have simple : env.perform mail kind c ctx.enterCommand = env.runSimple kind c ctx.enterCommand →
      kind.id ∈ actionNames ∧
        Refused ctx.enterCommand (kind = .reject) (env.perform mail kind c ctx.enterCommand) := by
    intro hperform
    rw [hperform] at h ⊢
    rcases runSimple_result hshape hkind (show RejectAlone ctx.enterCommand.actions from htracks.alone) with
      ⟨flow, hok⟩ | hr
    · rw [hok] at h; cases h
    · exact hr
  cases kind with
  | ifThen =>
    obtain ⟨⟨t, block⟩, hc⟩ := verdict_eq_ok.1 hshape
    exact (arm hc (perform_arm (.inl rfl) hc)).imp_right .inl
  | elseIf =>
    obtain ⟨⟨t, block⟩, hc⟩ := verdict_eq_ok.1 hshape
    rcases htracks.open_chain hp (hcontrols.arm (.inl rfl)) with hpending | htaken
    · exact (arm hc (perform_arm (.inr ⟨rfl, hpending⟩) hc)).imp_right .inl
    · rw [perform_elseIf_taken env mail c htaken] at h; cases h
  | otherwise =>
    rcases htracks.open_chain hp (hcontrols.arm (.inr rfl)) with hpending | htaken
    · rw [perform_otherwise_pending env mail c hpending] at h ⊢
      exact .inr (.inl ⟨h, rfl⟩)
    · rw [perform_otherwise_taken env mail c htaken] at h; cases h
  | require => exact absurd rfl hkind
  | _ => exact .inr (.inr (simple rfl))

/-- An `if` or `elsif` that succeeds leaves its chain open. -/
theorem perform_branch {flow : Flow} (hshape : kind.check c = .ok ())
    (hkind : kind = .ifThen ∨ kind = .elseIf ∧ (ctx.preceding = .pending ∨ ctx.preceding = .taken))
    (h : (env.perform mail kind c ctx).result = .ok flow) :
    (env.perform mail kind c ctx).context.branch ≠ .none := by
  have arm : (kind = .ifThen ∨ kind = .elseIf ∧ ctx.preceding = .pending) →
      verdict c.conditional = .ok () → (env.perform mail kind c ctx).context.branch ≠ .none := by
    intro hkind hc
    obtain ⟨⟨t, block⟩, hc⟩ := verdict_eq_ok.1 hc
    rw [perform_arm hkind hc] at h ⊢
    exact runArm_branch h
  rcases hkind with rfl | ⟨rfl, hpending | htaken⟩
  · exact arm (.inl rfl) hshape
  · exact arm (.inr ⟨rfl, hpending⟩) hshape
  · rw [perform_elseIf_taken env mail c htaken]
    exact nofun

/-- After a command that succeeds the context has kept up. -/
theorem Tracks.runCommand {flow : Flow} (htracks : Tracks en p ctx) (hcontrols : Controls c.name kind)
    (hp : p.check c.name = .ok ()) (haccepts : AcceptsCommand env en c kind)
    (hok : env.validateCommand en c = .ok en') (h : (env.runCommand mail c ctx).result = .ok flow) :
    Tracks en' (p.after c.name) (env.runCommand mail c ctx).context := by
  have hgrows := env.runCommand_grows mail c ctx
  have hsub : en ⊆ ctx.enterCommand.enabled := htracks.enabled
  refine ⟨?_, fun hchain => ?_, hgrows.alone htracks.alone⟩
  · by_cases hn : c.name = requireName
    · obtain rfl : kind = .require := hcontrols.require.2 hn
      obtain ⟨_, en₁, -, hreq, -, hblock⟩ := validateCommand_eq_ok.1 hok
      rw [validateBlock?_enabled hblock, haccepts.runCommand htracks.enabled]
      exact (runSimple_require hn hreq hsub).2
    · rw [validateCommand_enabled hn hok]
      exact List.Subset.trans htracks.enabled hgrows.enabled
  · have hif : c.name = "if" ∨ c.name = "elsif" := by simpa [Place.after] using hchain
    rw [haccepts.runCommand htracks.enabled] at h ⊢
    refine perform_branch haccepts.shape ?_ (mapError_eq_ok.1 h)
    rcases hcontrols.opening hif with hkind | hkind
    · exact .inl hkind
    · exact .inr ⟨hkind, htracks.open_chain hp (hcontrols.arm (.inl hkind))⟩

end

/-! ## Whole scripts -/

structure Sound (env : Environment) : Prop where
  commands : env.commands = standard.commands
  ready : ∀ {en enabled}, en ⊆ enabled → env.Ready en enabled

theorem sound_standardWith (strict : Bool) : (standardWith strict).Sound :=
  ⟨rfl, ready_standardWith strict⟩

structure Reliable (env : Environment) : Prop where
  controls : ∀ {name kind}, env.commands.lookup name = .ok kind → Controls name kind
  ready : ∀ {en enabled}, en ⊆ enabled → env.Ready en enabled

theorem Sound.reliable {env : Environment} (h : env.Sound) : env.Reliable := by
  refine ⟨?_, h.ready⟩
  intro name kind hlook
  rw [h.commands, standard_commands_lookup_eq_ok] at hlook
  exact hlook ▸ controls_id kind

section
variable {env : Environment} {mail : Mail}

mutual
/-- An accepted command fails only with the mail or over a rejection. -/
theorem runCommand_lateError (hreliable : env.Reliable) : ∀ {c : Command} {p : Place} {en en' : List String}
    {ctx : Context} {e : Error}, p.check c.name = .ok () → env.validateCommand en c = .ok en' →
    Tracks en p ctx → (env.runCommand mail c ctx).result = .error e →
    env.LateError mail c.preorder (env.runCommand mail c ctx).context.actions e
  | ⟨name, arguments, tests, block, position⟩, p, en, en', ctx, e, hp, hok, htracks, h => by
    obtain ⟨kind, en₁, haccepts, hreq, htests, hblock⟩ := validateCommand_eq_ok.1 hok
    have hcontrols := hreliable.controls haccepts.lookup
    rw [haccepts.runCommand htracks.enabled] at h ⊢
    obtain ⟨e', he, rfl⟩ := error_of_mapError h
    by_cases hkind : kind = .require
    · subst hkind
      have hname := hcontrols.require.1 rfl
      have hrun := (runSimple_require hname hreq (show en ⊆ ctx.enterCommand.enabled from htracks.enabled)).1
      cases hrun.symm.trans he
    · have hne : name ≠ requireName := fun hn => hkind (hcontrols.require.2 hn)
      rw [Requires, if_neg hne] at hreq
      subst hreq
      have hready := hreliable.ready htracks.enabled
      rcases perform_result hcontrols haccepts.shape hkind hp htracks hready htests he with
        hmail | hb | ⟨hmem, hr⟩
      · obtain ⟨m, rfl, hm⟩ := hmail
        exact .inl ⟨m, rfl, hm⟩
      · -- what the block fails with has its place already
        have hinside : Tracks en₁ (.start false) ctx.enterCommand.enterBlock :=
          ⟨htracks.enabled, nofun, htracks.alone⟩
        have hinner := runBlock?_lateError hreliable hblock hinside hb.result
        rw [Exec.locate_context, hb.context, hinner.locate]
        exact hinner.mono (Command.blockPreorder_subset _)
      · rw [hr.result] at he
        cases he
        rw [Exec.locate_context, hr.context]
        exact .inr ⟨_, Command.mem_preorder_self _, kind, haccepts.lookup, hmem, rfl, hr.actions, hr.clash⟩

theorem runBlock?_lateError (hreliable : env.Reliable) : ∀ {block : Option (List Command)}
    {en en' : List String} {ctx : Context} {e : Error}, env.validateBlock? en block = .ok en' →
    Tracks en (.start false) ctx → (env.runBlock? mail block ctx).result = .error e →
    env.LateError mail (Script.blockPreorder block) (env.runBlock? mail block ctx).context.actions e
  | none, _, _, _, _, _, _, h => nomatch h
  | some _, _, _, _, _, hok, htracks, h => runCommands_lateError hreliable hok htracks h

theorem runCommands_lateError (hreliable : env.Reliable) : ∀ {cs : List Command} {p : Place}
    {en en' : List String} {ctx : Context} {e : Error}, env.validateSequence en p cs = .ok en' →
    Tracks en p ctx → (env.runCommands mail cs ctx).result = .error e →
    env.LateError mail (Script.preorder cs) (env.runCommands mail cs ctx).context.actions e
  | [], _, _, _, _, _, _, _, h => nomatch h
  | c :: cs, p, en, en', ctx, e, hok, htracks, h => by
    obtain ⟨hp, en₁, hcommand, hrest⟩ := validateSequence_cons_eq_ok.1 hok
    obtain ⟨kind, _, haccepts, -⟩ := validateCommand_eq_ok.1 hcommand
    have hcontrols := hreliable.controls haccepts.lookup
    rw [runCommands_cons, Exec.bind_apply] at h ⊢
    cases hc : (env.runCommand mail c ctx).result with
    | error e' =>
      simp only [hc] at h ⊢
      cases h
      exact (runCommand_lateError hreliable hp hcommand htracks hc).mono (List.subset_append_left _ _)
    | ok flow =>
      simp only [hc] at h ⊢
      cases flow with
      | stop => cases h
      | next =>
        have htracks' := htracks.runCommand hcontrols hp haccepts hcommand hc
        exact (runCommands_lateError hreliable hrest htracks' h).mono (List.subset_append_right _ _)
end

theorem execute_lateError (hreliable : env.Reliable) {script : Script} {e : Error}
    (hok : env.validate script = .ok ()) (h : (env.execute script mail).result = .error e) :
    env.LateError mail (Script.preorder script) (env.execute script mail).actions e := by
  obtain ⟨en, hseq⟩ := verdict_eq_ok.1 hok
  have hstart : Tracks [] (.start true) {} := ⟨List.nil_subset _, nofun, nofun⟩
  simp only [execute, hok] at h ⊢
  exact runCommands_lateError hreliable hseq hstart h

theorem execute_runError (hsound : env.Sound) {script : Script} {e : Error}
    (hok : env.validate script = .ok ()) (h : (env.execute script mail).result = .error e) :
    RunError mail (Script.preorder script) (env.execute script mail).actions e :=
  (execute_lateError hsound.reliable hok h).runError hsound.commands

end

/-- How the run of an accepted script may end: it goes through, the mail cannot be
read, or a command that acts on the message clashes with a rejection, being one
itself or meeting one. -/
def EndsAsPromised (mail : Mail) (script : Script) (run : Execution) : Prop :=
  match run.result with
  | .ok _ => True
  | .error (.mail e) => mail.Fails e
  | .error (.command fault position) =>
    fault = .rejectNotAlone ∧ run.actions ≠ [] ∧
      ∃ c ∈ Script.preorder script, c.name ∈ actionNames ∧ position = some c.position ∧
        (c.name = "reject" ∨ ∃ message, run.actions = [.reject message])
  | .error (.illFormed ..) | .error (.lookup ..) => False

/-- Static checks are enough under the standard names, whether extensions have to
be required or not: no script that passes them is found ill-formed, or to use an
unknown or disabled name, while it runs. -/
theorem execute_endsAsPromised (strict : Bool) (script : Script) (mail : Mail)
    (hok : (standardWith strict).validate script = .ok ()) :
    EndsAsPromised mail script ((standardWith strict).execute script mail) := by
  unfold EndsAsPromised
  cases h : ((standardWith strict).execute script mail).result with
  | ok flow => trivial
  | error e =>
    rcases execute_runError (sound_standardWith strict) hok h with ⟨m, rfl, hm⟩ | ⟨c, hc, hn, rfl, hne, hr⟩
    · exact hm
    · exact ⟨rfl, hne, c, hc, hn, rfl, hr⟩

def lateRejection : Script := [
  ⟨"require", [.strings ["reject"]], none, none, ⟨1, 1⟩⟩,
  ⟨"if", [], some [⟨"exists", [.strings ["From"]], none, ⟨2, 4⟩⟩],
    some [⟨"keep", [], none, none, ⟨2, 22⟩⟩], ⟨2, 1⟩⟩,
  ⟨"reject", [.strings ["no"]], none, none, ⟨3, 1⟩⟩]

def plainMail : Mail where
  header _ := .ok ["a@example.org"]
  headerNames := .ok ["From"]
  size := .ok 0
  envelope _ := .error (.unsupported "envelope")
  bodyContains _ := .ok false

theorem execute_endsAsPromised_lateRejection :
    (standardWith true).validate lateRejection = .ok () ∧
      ((standardWith true).execute lateRejection plainMail).result =
        .error (.command .rejectNotAlone (some ⟨3, 1⟩)) ∧
      EndsAsPromised plainMail lateRejection ((standardWith true).execute lateRejection plainMail) := by
  have hok : (standardWith true).validate lateRejection = .ok () := by rfl
  exact ⟨hok, by rfl, execute_endsAsPromised true lateRejection plainMail hok⟩

end Environment

end MailSieve
