import MailSieve.Proofs.Replay
import MailSieve.Proofs.Soundness

/-!
# Scripts of actions alone

Each command of such a script either has its action added, or repeats a filing and is passed
over, or clashes with a rejection and ends the run. Which of these it is can be told from the
actions that the commands before it stand for, without running them.
-/

namespace MailSieve

/-! ## Repetitions and clashes -/

namespace Action

def repeats (before : List Action) (a : Action) : Bool :=
  a.destination?.isSome && before.contains a

/-- The action comes together with others, one of them a rejection, and is not passed over. -/
structure Clashes (before : List Action) (a : Action) : Prop where
  fresh : a.repeats before = false
  joined : before ≠ []
  rejects : a.isReject = true ∨ ∃ b ∈ before, b.isReject = true

theorem repeats_fileInto {before : List Action} {mailbox : String} :
    (fileInto mailbox).repeats before = true ↔ fileInto mailbox ∈ before := by
  simp [repeats, destination?]

theorem exists_mailbox_of_repeats {before : List Action} {a : Action} (h : a.repeats before = true) :
    ∃ mailbox, a = .fileInto mailbox ∧ a ∈ before := by
  cases a with
  | fileInto mailbox => exact ⟨mailbox, rfl, repeats_fileInto.1 h⟩
  | _ => cases h

end Action

def keptAfter (before : List Action) : List Action → List Action
  | [] => []
  | a :: actions =>
    if a.repeats before then keptAfter (before ++ [a]) actions
    else a :: keptAfter (before ++ [a]) actions

/-- The actions without those that file into a mailbox once more. -/
def kept (actions : List Action) : List Action :=
  keptAfter [] actions

theorem keptAfter_append (before xs ys : List Action) :
    keptAfter before (xs ++ ys) = keptAfter before xs ++ keptAfter (before ++ xs) ys := by
  induction xs generalizing before with
  | nil => simp [keptAfter]
  | cons a xs ih =>
    rw [List.cons_append, keptAfter, keptAfter, ih, List.append_assoc, List.singleton_append]
    split <;> rfl

theorem kept_concat (before : List Action) (a : Action) :
    kept (before ++ [a]) = if a.repeats before then kept before else kept before ++ [a] := by
  rw [kept, keptAfter_append, List.nil_append, keptAfter, keptAfter]
  split
  · exact List.append_nil _
  · rfl

/-- What is dropped is there already. -/
theorem mem_kept {actions : List Action} {b : Action} : b ∈ kept actions ↔ b ∈ actions := by
  induction actions using List.reverseRecOn with
  | nil => rfl
  | append_singleton before a ih =>
    rw [kept_concat, List.mem_append, List.mem_singleton]
    by_cases h : a.repeats before = true
    · obtain ⟨-, -, hmem⟩ := Action.exists_mailbox_of_repeats h
      rw [if_pos h, ih]
      constructor
      · exact .inl
      · rintro (hb | rfl)
        · exact hb
        · exact hmem
    · rw [if_neg h, List.mem_append, List.mem_singleton, ih]

theorem kept_eq_nil {actions : List Action} : kept actions = [] ↔ actions = [] := by
  simp only [List.eq_nil_iff_forall_not_mem, mem_kept]

def Clear (before actions : List Action) : Prop :=
  ∀ xs a ys, actions = xs ++ a :: ys → ¬ a.Clashes (before ++ xs)

theorem clear_nil (before : List Action) : Clear before [] := by
  intro xs a ys h
  cases xs <;> cases h

theorem clear_cons {before actions : List Action} {a : Action} (ha : ¬ a.Clashes before)
    (h : Clear (before ++ [a]) actions) : Clear before (a :: actions) := by
  intro xs b ys heq
  cases xs with
  | nil =>
    cases heq
    rwa [List.append_nil]
  | cons c xs =>
    cases heq
    have hb := h xs b ys rfl
    rwa [List.append_assoc] at hb

theorem repeats_reject (before : List Action) {a : Action} (h : a.isReject = true) : a.repeats before = false := by
  cases a <;> first | rfl | cases h

theorem clashes_after_reject {r : Action} (hr : r.isReject = true) (a : Action) : a.Clashes [r] := by
  refine ⟨?_, List.cons_ne_nil _ _, .inr ⟨r, List.mem_singleton_self r, hr⟩⟩
  by_contra hrepeats
  obtain ⟨mailbox, rfl, hmem⟩ := Action.exists_mailbox_of_repeats (by simpa using hrepeats)
  rw [← List.mem_singleton.1 hmem] at hr
  cases hr

/-- No rejection is kept, or there is nothing but one. -/
def Compatible (actions : List Action) : Prop :=
  (∀ a ∈ kept actions, a.isReject = false) ∨ ∃ message, actions = [.reject message]

theorem clear_iff_compatible {actions : List Action} : Clear [] actions ↔ Compatible actions := by
  simp only [Compatible, mem_kept]
  constructor
  · intro hclear
    by_cases hnone : ∀ a ∈ actions, a.isReject = false
    · exact .inl hnone
    · right
      push Not at hnone
      obtain ⟨r, hmem, hr⟩ := hnone
      rw [Bool.ne_false_iff] at hr
      obtain ⟨xs, ys, rfl⟩ := List.append_of_mem hmem
      -- nothing stands before a rejection, and nothing after it
      have hfirst : xs = [] := by
        by_contra hxs
        exact hclear xs r ys rfl ⟨repeats_reject _ hr, hxs, .inl hr⟩
      subst hfirst
      cases ys with
      | cons b ys => exact absurd (clashes_after_reject hr b) (hclear [r] b ys rfl)
      | nil =>
        cases r with
        | reject message => exact ⟨message, rfl⟩
        | _ => cases hr
  · rintro (hnone | ⟨message, rfl⟩) xs a ys heq hclash
    · subst heq
      rcases hclash.rejects with ha | ⟨b, hb, hreject⟩
      · rw [hnone a (by simp)] at ha
        cases ha
      · rw [hnone b (List.mem_append_left _ hb)] at hreject
        cases hreject
    · cases xs with
      | nil => exact hclash.joined rfl
      | cons b xs => cases xs <;> cases heq

/-! ## Commands that act -/

namespace Command

def IsAction (c : Command) : Prop :=
  c.name ∈ actionNames ∧ ∃ kind, Environment.standard.commands.lookup c.name = .ok kind ∧ kind.check c = .ok ()

theorem block_of_refuseBlock {c : Command} (h : c.refuseBlock = .ok ()) : c.block = none := by
  unfold refuseBlock at h
  cases hblock : c.block with
  | none => rfl
  | some block =>
    rw [hblock] at h
    cases h

theorem tests_of_refuseTests {c : Command} (h : c.refuseTests = .ok ()) : c.tests = none := by
  unfold refuseTests at h
  cases htests : c.tests with
  | none => rfl
  | some tests =>
    rw [htests] at h
    cases h

theorem eq_command {c : Command} {a : Action} (hname : c.name = a.kind.id)
    (hargs : c.arguments = a.operands.map fun s => .strings [s]) (htests : c.tests = none)
    (hblock : c.block = none) :
    c = a.command c.position := by
  obtain ⟨name, arguments, tests, block, position⟩ := c
  cases hname
  cases hargs
  cases htests
  cases hblock
  rfl

theorem eq_command_of_checkBare {c : Command} {a : Action} (hname : c.name = a.kind.id) (hbare : a.operands = [])
    (h : c.checkBare = .ok ()) : c = a.command c.position := by
  have hargs := arguments_of_checkBare h
  obtain ⟨⟨⟩, hblock, h⟩ := bind_eq_ok.1 h
  have htests : c.tests = none := by
    by_contra htests
    have hsome : c.isBare = false := by
      cases ht : c.tests with
      | none => exact absurd ht htests
      | some tests => simp [isBare, ht]
    simp [hsome, throw_ne_ok] at h
  exact eq_command hname (by rw [hargs, hbare]; rfl) htests (block_of_refuseBlock hblock)

theorem eq_command_of_action {c : Command} {a : Action} {what s : String} (hname : c.name = a.kind.id)
    (hoperand : a.operands = [s]) (h : c.action what = .ok s) : c = a.command c.position := by
  have hargs := operand_eq_ok.1 (operand_of_action h)
  obtain ⟨⟨⟩, hblock, h⟩ := bind_eq_ok.1 h
  obtain ⟨⟨⟩, htests, -⟩ := bind_eq_ok.1 h
  exact eq_command hname (by rw [hargs, hoperand]; rfl) (tests_of_refuseTests htests) (block_of_refuseBlock hblock)

/-- A command that acts is the one that its action is printed as. -/
theorem IsAction.exists_action {c : Command} (h : c.IsAction) :
    ∃ a : Action, c = a.command c.position ∧ a.Joins [] := by
  obtain ⟨hmem, kind, hlook, hcheck⟩ := h
  have hname := Environment.standard_commands_lookup_eq_ok.1 hlook
  have hplain : ∀ a : Action, (∀ address, a ≠ .redirect address) → a.Joins [] := by
    intro a ha
    exact ⟨.inl rfl, fun _ _ => List.not_mem_nil, fun address h => absurd h (ha address)⟩
  cases kind with
  | keep => exact ⟨.keep, eq_command_of_checkBare hname rfl hcheck, hplain _ (by simp)⟩
  | discard => exact ⟨.discard, eq_command_of_checkBare hname rfl hcheck, hplain _ (by simp)⟩
  | redirect =>
    obtain ⟨address, h⟩ := verdict_eq_ok.1 hcheck
    have hblank := (redirectAddress_eq_ok h).2
    obtain ⟨address', haction, h⟩ := bind_eq_ok.1 h
    -- the address that is read is the one that is checked
    have hsame : address' = address := by
      have hoperand := (redirectAddress_eq_ok (bind_eq_ok.2 ⟨address', haction, h⟩)).1
      rw [operand_of_action haction] at hoperand
      exact Except.ok.inj hoperand
    subst hsame
    refine ⟨.redirect address', eq_command_of_action hname rfl haction, .inl rfl, nofun, ?_⟩
    rintro _ ⟨⟩
    exact hblank
  | fileInto =>
    obtain ⟨mailbox, h⟩ := verdict_eq_ok.1 hcheck
    exact ⟨.fileInto mailbox, eq_command_of_action hname rfl h, hplain _ (by simp)⟩
  | reject =>
    obtain ⟨message, h⟩ := verdict_eq_ok.1 hcheck
    exact ⟨.reject message, eq_command_of_action hname rfl h, hplain _ (by simp)⟩
  | _ =>
    rw [hname] at hmem
    simp [CommandKind.id, actionNames] at hmem

end Command

namespace Environment

theorem action?_command (a : Action) (p : Position) : standard.action? (a.command p) = some a := by
  rw [action?_of_lookup (standard_commands_lookup a.kind)]
  cases a <;> rfl

theorem exists_replays : ∀ {commands : List Command}, (∀ c ∈ commands, c.IsAction) →
    ∃ actions, Replays commands actions ∧ ∀ a ∈ actions, a.Joins []
  | [], _ => ⟨[], .nil, nofun⟩
  | c :: commands, h => by
    obtain ⟨hc, hcs⟩ := List.forall_mem_cons.1 h
    obtain ⟨a, hca, hjoins⟩ := hc.exists_action
    obtain ⟨actions, hreplays, hall⟩ := exists_replays hcs
    rw [hca]
    exact ⟨a :: actions, .cons hreplays, List.forall_mem_cons.2 ⟨hjoins, hall⟩⟩

def denoted (commands : List Command) : List Action :=
  commands.filterMap standard.action?

theorem denoted_cons (a : Action) (p : Position) (commands : List Command) :
    denoted (a.command p :: commands) = a :: denoted commands :=
  List.filterMap_cons_some (action?_command a p)

theorem map_action?_of_replays {commands : List Command} {actions : List Action} (h : Replays commands actions) :
    commands.map standard.action? = (denoted commands).map some := by
  induction h with
  | nil => rfl
  | cons _ ih => rw [List.map_cons, denoted_cons, List.map_cons, action?_command, ih]

/-! ## One command -/

section
variable {before : List Action} {a : Action} {ctx : Context} (hctx : ctx.actions = kept before)
include hctx

theorem joins_of_not_clashes (ha : a.Joins []) (hfresh : a.repeats before = false) (h : ¬ a.Clashes before) :
    a.Joins ctx.actions := by
  refine ⟨?_, ?_, ha.addressed⟩
  · by_cases hnil : before = []
    · left
      rw [hctx, kept_eq_nil, hnil]
    · right
      rw [hctx]
      constructor
      · by_contra hreject
        exact h ⟨hfresh, hnil, .inl (by simpa using hreject)⟩
      · intro b hb
        by_contra hreject
        exact h ⟨hfresh, hnil, .inr ⟨b, mem_kept.1 hb, by simpa using hreject⟩⟩
  · rintro mailbox rfl hmem
    rw [hctx, mem_kept, ← Action.repeats_fileInto, hfresh] at hmem
    cases hmem

theorem addAction_of_clashes (h : a.Clashes before) :
    Exec.addAction a ctx = ⟨ctx, [], .error (.command .rejectNotAlone none)⟩ := by
  have hadd : ctx.addAction a = .error .rejectNotAlone := by
    rw [Context.addAction, if_pos]
    refine ⟨?_, ?_⟩
    · rw [hctx, ne_eq, kept_eq_nil]
      exact h.joined
    · rw [hctx]
      refine h.rejects.imp_right fun hb => ?_
      obtain ⟨b, hb, hreject⟩ := hb
      exact List.any_eq_true.2 ⟨b, mem_kept.2 hb, hreject⟩
  rw [Exec.addAction, hadd]

theorem runSimple_of_repeats (env : Environment) (h : a.repeats before = true) (p : Position) :
    env.runSimple a.kind (a.command p) ctx = ⟨ctx, [], .ok .next⟩ := by
  obtain ⟨mailbox, rfl, hmem⟩ := Action.exists_mailbox_of_repeats h
  have hfiled : ctx.isFiled mailbox = true := by
    rw [Context.isFiled, List.contains_iff_mem, hctx]
    exact mem_kept.2 hmem
  have hfile : fileInto mailbox ctx = ⟨ctx, [], .ok ()⟩ := by
    simp [fileInto, hfiled]
  show (fileInto mailbox >>= fun _ => pure Flow.next) ctx = _
  rw [Exec.bind_apply, hfile]
  rfl

theorem runSimple_of_clashes (env : Environment) (h : a.Clashes before) (p : Position) :
    env.runSimple a.kind (a.command p) ctx = ⟨ctx, [], .error (.command .rejectNotAlone none)⟩ := by
  have hadd := addAction_of_clashes hctx h
  have hrefused : (Exec.addAction a >>= fun _ => pure Flow.next) ctx =
      ⟨ctx, [], .error (.command .rejectNotAlone none)⟩ := by
    rw [Exec.bind_apply, hadd]
  cases a with
  | fileInto mailbox =>
    have hnew : ctx.isFiled mailbox = false := by
      rw [Context.isFiled, hctx, Bool.eq_false_iff, ne_eq, List.contains_iff_mem, mem_kept,
        ← Action.repeats_fileInto, h.fresh]
      exact Bool.false_ne_true
    have hfile : fileInto mailbox ctx = Exec.addAction (.fileInto mailbox) ctx := by
      simp [fileInto, hnew]
    show (fileInto mailbox >>= fun _ => pure Flow.next) ctx = _
    rw [Exec.bind_apply, hfile, ← Exec.bind_apply]
    exact hrefused
  | _ => exact hrefused

end

theorem runCommand_action {a : Action} (ha : a.Joins []) (p : Position) (mail : Mail) (ctx : Context) :
    standard.runCommand mail (a.command p) ctx =
      Exec.locate (standard.runSimple a.kind (a.command p)) p ctx.enterCommand := by
  have hperform : standard.perform mail a.kind (a.command p) = standard.runSimple a.kind (a.command p) := by
    cases a <;> rfl
  rw [runCommand_of_checked (standard_commands_lookup a.kind) (Action.check_command ha p)
    (standard_checkEnabled _ _ _ _), hperform]
  rfl

/-- A command that does not clash leaves what is kept of the actions so far and its own. -/
theorem runCommand_passes {before : List Action} {a : Action} (ha : a.Joins [])
    (h : ¬ a.Clashes before) (p : Position) (mail : Mail) {ctx : Context} (hctx : ctx.actions = kept before) :
    (standard.runCommand mail (a.command p) ctx).result = .ok .next ∧
      (standard.runCommand mail (a.command p) ctx).context.actions = kept (before ++ [a]) := by
  have hctx' : ctx.enterCommand.actions = kept before := hctx
  rw [kept_concat, runCommand_action ha]
  by_cases hrepeats : a.repeats before = true
  · rw [if_pos hrepeats, Exec.locate, runSimple_of_repeats hctx' standard hrepeats]
    exact ⟨rfl, hctx⟩
  · have hjoins := joins_of_not_clashes hctx' ha (by simpa using hrepeats) h
    rw [if_neg hrepeats, Exec.locate, runSimple_command standard hjoins, hctx']
    exact ⟨rfl, rfl⟩

theorem runCommand_clashes {before : List Action} {a : Action} (ha : a.Joins [])
    (h : a.Clashes before) (p : Position) (mail : Mail) {ctx : Context} (hctx : ctx.actions = kept before) :
    (standard.runCommand mail (a.command p) ctx).result = .error (.command .rejectNotAlone (some p)) ∧
      (standard.runCommand mail (a.command p) ctx).context.actions = kept before := by
  have hctx' : ctx.enterCommand.actions = kept before := hctx
  rw [runCommand_action ha, Exec.locate, runSimple_of_clashes hctx' standard h]
  exact ⟨rfl, hctx⟩

/-! ## Whole scripts -/

/-- How a run over commands ends that follows the actions `before`: it goes through, or ends at
the first command that clashes. -/
inductive Ends (before : List Action) (commands : List Command) (result : Except Error Flow)
    (final : List Action) : Prop
  | through (hclear : Clear before (denoted commands)) (hresult : result = .ok .next)
      (hfinal : final = kept (before ++ denoted commands))
  | clash (front : List Command) {c rest a} (hsplit : commands = front ++ c :: rest)
      (hc : standard.action? c = some a) (hclear : Clear before (denoted front))
      (hclash : a.Clashes (before ++ denoted front))
      (hresult : result = .error (.command .rejectNotAlone (some c.position)))
      (hfinal : final = kept (before ++ denoted front))

section
variable {before : List Action} {commands : List Command} {result : Except Error Flow} {final : List Action}

theorem Ends.cons {a : Action} {p : Position} (ha : ¬ a.Clashes before)
    (h : Ends (before ++ [a]) commands result final) : Ends before (a.command p :: commands) result final := by
  have hdenoted : ∀ front, before ++ denoted (a.command p :: front) = before ++ [a] ++ denoted front := by
    intro front
    rw [denoted_cons, List.append_assoc, List.singleton_append]
  have hclears : ∀ front, Clear (before ++ [a]) (denoted front) →
      Clear before (denoted (a.command p :: front)) := by
    intro front hclear
    rw [denoted_cons]
    exact clear_cons ha hclear
  cases h with
  | through hclear hresult hfinal => exact .through (hclears _ hclear) hresult (by rwa [hdenoted])
  | clash front hsplit hc hclear hclash hresult hfinal =>
    exact .clash (a.command p :: front) (by rw [hsplit]; rfl) hc (hclears _ hclear) (by rwa [hdenoted]) hresult
      (by rwa [hdenoted])

theorem Ends.of_clear (h : Ends before commands result final) (hclear : Clear before (denoted commands)) :
    result = .ok .next ∧ final = kept (before ++ denoted commands) := by
  cases h with
  | through _ hresult hfinal => exact ⟨hresult, hfinal⟩
  | @clash front c rest a hsplit hc _ hclash =>
    have hdenoted : denoted commands = denoted front ++ a :: denoted rest := by
      rw [hsplit, denoted, List.filterMap_append, List.filterMap_cons_some hc, denoted, denoted]
    exact absurd hclash (hclear _ a _ hdenoted)

end

theorem runCommands_ends {commands : List Command} {actions : List Action} (h : Replays commands actions)
    (hall : ∀ a ∈ actions, a.Joins []) (mail : Mail) : ∀ (before : List Action) (ctx : Context),
      ctx.actions = kept before → Ends before commands (standard.runCommands mail commands ctx).result
        (standard.runCommands mail commands ctx).context.actions := by
  have hnone : ∀ before, before ++ denoted [] = before := List.append_nil
  induction h with
  | nil =>
    intro before ctx hctx
    exact .through (clear_nil before) rfl (by rwa [hnone])
  | @cons a p commands actions _ ih =>
    intro before ctx hctx
    obtain ⟨ha, has⟩ := List.forall_mem_cons.1 hall
    rw [runCommands_cons, Exec.bind_apply]
    -- along the run, the context holds what is kept of the actions that have come up
    by_cases hclash : a.Clashes before
    · obtain ⟨hresult, hactions⟩ := runCommand_clashes ha hclash p mail hctx
      rw [hresult]
      exact .clash [] rfl (action?_command a p) (clear_nil before) (by rwa [hnone]) rfl (by rwa [hnone])
    · obtain ⟨hresult, hactions⟩ := runCommand_passes ha hclash p mail hctx
      rw [hresult]
      exact (ih has (before ++ [a]) _ hactions).cons hclash

theorem execute_ends {commands : Script} {actions : List Action} (h : Replays commands actions)
    (hall : ∀ a ∈ actions, a.Joins []) (mail : Mail) :
    Ends [] commands (standard.execute commands mail).result (standard.execute commands mail).actions := by
  have hvalid : standard.validate commands = .ok () :=
    verdict_eq_ok.2 ⟨[], validateSequence_replays h (fun a ha => ⟨[], hall a ha⟩) _⟩
  rw [execute, hvalid]
  exact runCommands_ends h hall mail [] {} rfl

/-- A script of actions alone goes through with the actions that it keeps, if these are
compatible. Otherwise it fails at the first command that clashes with those before, which leave
the actions that they keep. -/
theorem execute_actionsAlone (commands : Script) (hacts : ∀ c ∈ commands, c.IsAction) (mail : Mail) :
    let actions := denoted commands
    let run := standard.execute commands mail
    commands.map standard.action? = actions.map some ∧
      (Compatible actions → run.result = .ok .next ∧ run.actions = kept actions) ∧
      (¬ Compatible actions → ∃ front c rest a, commands = front ++ c :: rest ∧ standard.action? c = some a ∧
        a.Clashes (denoted front) ∧ Clear [] (denoted front) ∧
        run.result = .error (.command .rejectNotAlone (some c.position)) ∧ run.actions = kept (denoted front)) ∧
      CommandFault.rejectNotAlone.message = "reject must be the only action" := by
  intro actions run
  obtain ⟨replayed, hreplays, hall⟩ := exists_replays hacts
  have hends := execute_ends hreplays hall mail
  refine ⟨map_action?_of_replays hreplays, ?_, ?_, rfl⟩
  · intro hcompatible
    exact hends.of_clear (clear_iff_compatible.2 hcompatible)
  · intro hincompatible
    cases hends with
    | through hclear => exact absurd (clear_iff_compatible.1 hclear) hincompatible
    | clash front hsplit hc hclear hclash hresult hfinal =>
      exact ⟨front, _, _, _, hsplit, hc, hclash, hclear, hresult, hfinal⟩

def filedThenRejected : Script := [
  ⟨"fileinto", [.strings ["Lists"]], none, none, ⟨1, 1⟩⟩,
  ⟨"keep", [], none, none, ⟨2, 1⟩⟩,
  ⟨"fileinto", [.strings ["Lists"]], none, none, ⟨3, 1⟩⟩,
  ⟨"reject", [.strings ["no"]], none, none, ⟨4, 1⟩⟩,
  ⟨"fileinto", [.strings ["Lists"]], none, none, ⟨5, 1⟩⟩]

theorem execute_actionsAlone_filedThenRejected :
    (∀ c ∈ filedThenRejected, c.IsAction) ∧ ¬ Compatible (denoted filedThenRejected) ∧
      (standard.execute filedThenRejected plainMail).actions = [.fileInto "Lists", .keep] ∧
      ∃ front c rest a, filedThenRejected = front ++ c :: rest ∧ standard.action? c = some a ∧
        a.Clashes (denoted front) ∧ Clear [] (denoted front) ∧
        (standard.execute filedThenRejected plainMail).result =
          .error (.command .rejectNotAlone (some c.position)) ∧
        (standard.execute filedThenRejected plainMail).actions = kept (denoted front) := by
  have hacts : ∀ c ∈ filedThenRejected, c.IsAction := by
    simp only [filedThenRejected, List.forall_mem_cons]
    exact ⟨⟨by decide, _, rfl, rfl⟩, ⟨by decide, _, rfl, rfl⟩, ⟨by decide, _, rfl, rfl⟩, ⟨by decide, _, rfl, rfl⟩,
      ⟨by decide, _, rfl, rfl⟩, List.forall_mem_nil _⟩
  have hincompatible : ¬ Compatible (denoted filedThenRejected) := by
    rintro (hnone | ⟨message, h⟩)
    · exact absurd (hnone (.reject "no") (by decide)) (by decide)
    · cases h
  obtain ⟨-, -, hfails, -⟩ := execute_actionsAlone filedThenRejected hacts plainMail
  exact ⟨hacts, hincompatible, by rfl, hfails hincompatible⟩

end Environment

end MailSieve
