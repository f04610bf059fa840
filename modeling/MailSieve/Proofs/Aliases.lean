import MailSieve.Proofs.Configuration
import MailSieve.Proofs.Renaming

/-!
# Aliases

Two names for one command, or for one test, can stand for each other anywhere in a script.
Beside the lookup, a name is compared with the words of the control commands and is put into
the texts of faults. The first is the same for both names and the second decides nothing.
-/

namespace MailSieve

namespace Environment

def controlWords : List String := ["if", "elsif", "else", requireName]

/-- Related names stand for the same, no other name is related to a control word, and nothing
has to be required. -/
structure Conflates (env : Environment) (commands tests : String → String → Prop) : Prop where
  command : ∀ {a b}, commands a b → env.commands.lookup a = env.commands.lookup b
  control : ∀ {a b}, commands a b → ∀ word ∈ controlWords, (a = word ↔ b = word)
  test : ∀ {a b}, tests a b → env.tests.lookup a = env.tests.lookup b
  builtin : env.HostFree
  lenient : env.enforceRequire = false

section
variable {env : Environment} {commands tests : String → String → Prop}

namespace Conflates

theorem checkEnabled_eq (henv : env.Conflates commands tests) (enabled : List String) (kind : EntryKind)
    (name : String) (ext : Bool) : env.checkEnabled enabled kind name ext = .ok () := by
  simp [checkEnabled, henv.lenient]

theorem not_host (henv : env.Conflates commands tests) {name : String} {kind : TestKind}
    (hlook : env.tests.lookup name = .ok kind) : ∀ test, kind ≠ .host test := by
  intro test hkind
  exact henv.builtin name test (hkind ▸ hlook)

/-! ## Static checks -/

theorem validateTestUse_alike (henv : env.Conflates commands tests) {t t' : Test} (h : Test.Renames tests t t')
    (enabled : List String) : Alike (env.validateTestUse enabled t) (env.validateTestUse enabled t') := by
  unfold validateTestUse
  rw [henv.test h.name_related, h.position_eq, h.arguments_eq]
  apply Alike.bind (.refl _)
  intro kind hlook
  apply Alike.bind ((h.check_alike (henv.not_host hlook)).locate _)
  intro _ _
  rw [henv.checkEnabled_eq, henv.checkEnabled_eq]

mutual
theorem validateTest_alike (henv : env.Conflates commands tests) (enabled : List String) : ∀ {t t' : Test},
    Test.Renames tests t t' → Alike (env.validateTest enabled t) (env.validateTest enabled t')
  | _, _, .mk hname htests => by
    rw [validateTest, validateTest]
    apply Alike.bind (henv.validateTestUse_alike (.mk hname htests) enabled)
    intro _ _
    exact validateTests?_alike henv enabled htests

theorem validateTests?_alike (henv : env.Conflates commands tests) (enabled : List String) :
    ∀ {ts ts' : Option (List Test)}, Test.Renames? tests ts ts' →
      Alike (env.validateTests? enabled ts) (env.validateTests? enabled ts')
  | _, _, .none => .refl _
  | _, _, .some h => validateTests_alike henv enabled h

theorem validateTests_alike (henv : env.Conflates commands tests) (enabled : List String) :
    ∀ {ts ts' : List Test}, Test.RenamesAll tests ts ts' →
      Alike (env.validateTests enabled ts) (env.validateTests enabled ts')
  | _, _, .nil => .refl _
  | _, _, .cons h hs => by
    rw [validateTests, validateTests]
    apply Alike.bind (validateTest_alike henv enabled h)
    intro _ _
    exact validateTests_alike henv enabled hs
end

theorem validateCommandUse_alike (henv : env.Conflates commands tests) {c c' : Command}
    (h : Command.Renames commands tests c c') (enabled : List String) :
    Alike (env.validateCommandUse enabled c) (env.validateCommandUse enabled c') := by
  have hrequire : c.name = requireName ↔ c'.name = requireName :=
    henv.control h.name_related requireName (by simp [controlWords])
  unfold validateCommandUse
  rw [henv.command h.name_related, h.position_eq]
  apply Alike.bind (.refl _)
  intro kind _
  apply Alike.bind ((Alike.of_shape (h.check_toOption kind)).locate _)
  intro _ _
  rw [henv.checkEnabled_eq, henv.checkEnabled_eq]
  simp only [hrequire, ok_bind]
  split
  · apply Alike.bind (.of_shape h.requirements_toOption)
    intro names _
    exact .refl _
  · exact .refl _

end Conflates

structure Place.Alike (p p' : Place) : Prop where
  top : p.top = p'.top
  preamble : p.preamble = p'.preamble
  opened : p.previous = some "if" ∨ p.previous = some "elsif" ↔ p'.previous = some "if" ∨ p'.previous = some "elsif"

namespace Conflates

variable {a b : String} {p p' : Place}

theorem place_after (henv : env.Conflates commands tests) (hname : commands a b) (hp : p.Alike p') :
    (p.after a).Alike (p'.after b) := by
  have hif := henv.control hname "if" (by decide)
  have helsif := henv.control hname "elsif" (by decide)
  have hrequire := henv.control hname requireName (by decide)
  constructor
  · exact hp.top
  · simp only [Place.after, hp.preamble, hrequire]
  · simp only [Place.after, Option.some.injEq, hif, helsif]

theorem place_check (henv : env.Conflates commands tests) (hname : commands a b) (hp : p.Alike p') (q : Position) :
    Alike ((p.check a).mapError fun fault => (Fault.placement fault).errorAt q)
      ((p'.check b).mapError fun fault => (Fault.placement fault).errorAt q) := by
  have helsif := henv.control hname "elsif" (by decide)
  have helse := henv.control hname "else" (by decide)
  have hrequire := henv.control hname requireName (by decide)
  -- The faults may name different commands, so only success is compared.
  have hok : p.check a = .ok () ↔ p'.check b = .ok () := by
    rw [Place.check_eq_ok, Place.check_eq_ok, hp.preamble, hp.opened, hrequire, helsif, helse]
  cases ha : p.check a with
  | ok => rw [hok.1 ha]
  | error f =>
    cases hb : p'.check b with
    | ok => simp [hok.2 hb] at ha
    | error f' => exact .error (.wording _ _ _)

mutual
theorem validateCommand_alike (henv : env.Conflates commands tests) : ∀ {c c' : Command} (enabled : List String),
    Command.Renames commands tests c c' → Alike (env.validateCommand enabled c) (env.validateCommand enabled c')
  | _, _, enabled, .mk hname htests hblock => by
    rw [validateCommand, validateCommand]
    apply Alike.bind (henv.validateCommandUse_alike (.mk hname htests hblock) enabled)
    intro enabled' _
    apply Alike.bind (henv.validateTests?_alike enabled' htests)
    intro _ _
    exact validateBlock?_alike henv enabled' hblock

theorem validateBlock?_alike (henv : env.Conflates commands tests) : ∀ {block block' : Option Script}
    (enabled : List String), Script.Renames? commands tests block block' →
    Alike (env.validateBlock? enabled block) (env.validateBlock? enabled block')
  | _, _, _, .none => .refl _
  | _, _, enabled, .some h => validateSequence_alike henv enabled ⟨rfl, rfl, Iff.rfl⟩ h

theorem validateSequence_alike (henv : env.Conflates commands tests) : ∀ {cs cs' : Script} {p p' : Place}
    (enabled : List String), p.Alike p' → Script.Renames commands tests cs cs' →
    Alike (env.validateSequence enabled p cs) (env.validateSequence enabled p' cs')
  | _, _, _, _, _, _, .nil => .refl _
  | _, _, _, _, enabled, hp, .cons h hs => by
    rw [validateSequence, validateSequence, h.position_eq]
    apply Alike.bind (henv.place_check h.name_related hp _)
    intro _ _
    apply Alike.bind (validateCommand_alike henv enabled h)
    intro enabled' _
    exact validateSequence_alike henv enabled' (henv.place_after h.name_related hp) hs
end

theorem validate_alike (henv : env.Conflates commands tests) {script script' : Script}
    (h : Script.Renames commands tests script script') : Alike (env.validate script) (env.validate script') := by
  have hwalk :
      Alike (env.validateSequence [] (.start true) script) (env.validateSequence [] (.start true) script') :=
    henv.validateSequence_alike [] ⟨rfl, rfl, Iff.rfl⟩ h
  exact hwalk.map _

/-! ## Tests at run time -/

theorem compareRead_alike (env : Environment) {t t' : Test} (h : Test.Renames tests t t') (enabled : List String)
    (takesPart : Bool) (read : String → Except MailError (List String))
    (parts : AddressPart → String → List String) :
    Alike (env.compareRead enabled t takesPart read parts) (env.compareRead enabled t' takesPart read parts) := by
  unfold compareRead
  apply Alike.bind (.of_shape (h.ofTest_toOption takesPart 2))
  intros
  rfl

theorem leafValue_alike (env : Environment) {t t' : Test} (h : Test.Renames tests t t') {kind : TestKind}
    (hhost : ∀ test, kind ≠ .host test) (enabled : List String) (mail : Mail) :
    Alike (env.leafValue enabled mail kind t) (env.leafValue enabled mail kind t') := by
  cases kind with
  | host test => exact absurd rfl (hhost test)
  | header | address | envelope =>
    unfold leafValue
    exact compareRead_alike env h ..
  | present => simp only [leafValue, h.presentNames_eq, Alike.refl]
  | size => simp only [leafValue, h.sizeOperands_eq, Alike.refl]
  | body =>
    apply Alike.bind (.of_shape h.bodyKeys_toOption)
    intros
    rfl
  | _ => exact .refl _

mutual
theorem evaluate_alike (henv : env.Conflates commands tests) (enabled : List String) (mail : Mail) :
    ∀ {t t' : Test}, Test.Renames tests t t' →
      Alike (env.evaluate enabled mail t).result (env.evaluate enabled mail t').result
  | ⟨name, arguments, ts, position⟩, ⟨name', _, ts', _⟩, .mk hname htests => by
    have h : Test.Renames tests ⟨name, arguments, ts, position⟩ ⟨name', arguments, ts', position⟩ :=
      .mk hname htests
    simp only [evaluate_eq, Traced.locate_result, Traced.bind_result, Traced.ofExcept]
    rw [henv.test hname]
    apply Alike.locate
    apply Alike.bind (.refl _)
    intro kind hlook
    have hhost := henv.not_host hlook
    apply Alike.bind (h.check_alike hhost)
    intro _ _
    rw [henv.checkEnabled_eq, henv.checkEnabled_eq]
    cases kind with
    | anyOf => exact evaluateUntil?_alike henv enabled mail true htests
    | allOf => exact evaluateUntil?_alike henv enabled mail false htests
    | negation =>
      simp only [ok_bind, valueOf, Traced.bind_result]
      apply Alike.bind (evaluateUntil?_alike henv enabled mail true htests)
      intros
      rfl
    | _ => exact leafValue_alike env h hhost enabled mail

theorem evaluateUntil?_alike (henv : env.Conflates commands tests) (enabled : List String) (mail : Mail)
    (decisive : Bool) : ∀ {ts ts' : Option (List Test)}, Test.Renames? tests ts ts' →
      Alike (env.evaluateUntil? enabled mail decisive ts).result
        (env.evaluateUntil? enabled mail decisive ts').result
  | _, _, .none => .refl _
  | _, _, .some h => evaluateUntil_alike henv enabled mail decisive h

theorem evaluateUntil_alike (henv : env.Conflates commands tests) (enabled : List String) (mail : Mail)
    (decisive : Bool) : ∀ {ts ts' : List Test}, Test.RenamesAll tests ts ts' →
      Alike (env.evaluateUntil enabled mail decisive ts).result (env.evaluateUntil enabled mail decisive ts').result
  | _, _, .nil => .refl _
  | _, _, .cons h hs => by
    simp only [evaluateUntil, Traced.bind_result]
    apply Alike.bind (evaluate_alike henv enabled mail h)
    intro value _
    split
    · rfl
    · exact evaluateUntil_alike henv enabled mail decisive hs
end

/-! ## Runs -/

theorem runSimple_alike (env : Environment) {c c' : Command} (h : Command.Renames commands tests c c')
    (kind : CommandKind) : Exec.Alike (env.runSimple kind c) (env.runSimple kind c') := by
  have hoperand : ∀ what, Exec.Alike (Exec.ofExcept (liftShape (c.operand what)))
      (Exec.ofExcept (liftShape (c'.operand what))) := by
    intro what
    exact .of_result (.of_shape (h.operand_toOption what))
  cases kind with
  | redirect | fileInto | reject => exact .bind (hoperand _) fun _ => .refl _
  | require => exact .bind (.of_result (.of_shape h.requirements_toOption)) fun _ => .refl _
  | _ => exact .refl _

theorem testOf_alike (henv : env.Conflates commands tests) {c c' : Command}
    (h : Command.Renames commands tests c c') (mail : Mail) :
    Exec.Alike (env.testOf mail c) (env.testOf mail c') := by
  unfold testOf
  rcases h.conditional_cases with ⟨t, block, t', block', hc, hc', ht⟩ | ⟨f, f', hc, hc'⟩
  · simp only [hc, hc', liftShape, Exec.ofExcept_ok_bind]
    intro ctx
    exact ⟨rfl, henv.evaluate_alike ctx.enabled mail ht⟩
  · rw [hc, hc']
    exact .of_result (.error (.wording _ _ _))

theorem choose_alike (henv : env.Conflates commands tests) {c c' : Command}
    (h : Command.Renames commands tests c c') (mail : Mail) (kind : CommandKind) :
    Exec.Alike (env.choose mail kind c) (env.choose mail kind c') := by
  have hasked : ∀ f : Bool → Exec Decision, Exec.Alike (env.testOf mail c >>= f) (env.testOf mail c' >>= f) := by
    intro f
    exact .bind (henv.testOf_alike h mail) fun _ => .refl _
  apply Exec.Alike.bind (.refl Exec.get)
  intro ctx
  cases kind with
  | ifThen => exact hasked _
  | elseIf =>
    cases ctx.preceding with
    | pending => exact hasked _
    | _ => exact .refl _
  | otherwise => cases ctx.preceding <;> exact .refl _
  | _ => exact .refl _

theorem perform_alike (henv : env.Conflates commands tests) {c c' : Command}
    (h : Command.Renames commands tests c c') {mail : Mail}
    (hblock : Exec.Alike (env.runBlock? mail c.block) (env.runBlock? mail c'.block)) (kind : CommandKind) :
    Exec.Alike (env.perform mail kind c) (env.perform mail kind c') := by
  cases kind with
  | ifThen | elseIf | otherwise =>
    apply Exec.Alike.bind (henv.choose_alike h mail _)
    intro decision
    cases decision with
    | skip branch => exact .refl _
    | run => exact .bind hblock.block fun _ => .refl _
  | _ => exact runSimple_alike env h _

mutual
theorem runCommand_alike (henv : env.Conflates commands tests) (mail : Mail) : ∀ {c c' : Command},
    Command.Renames commands tests c c' → Exec.Alike (env.runCommand mail c) (env.runCommand mail c')
  | ⟨name, arguments, ts, block, position⟩, ⟨name', _, ts', block', _⟩, .mk hname htests hblock => by
    have h : Command.Renames commands tests ⟨name, arguments, ts, block, position⟩
      ⟨name', arguments, ts', block', position⟩ := .mk hname htests hblock
    have hrun := henv.perform_alike h (runBlock?_alike henv mail hblock)
    rw [runCommand_eq, runCommand_eq]
    apply Exec.Alike.locate
    apply Exec.Alike.bind (.refl _)
    intro _
    rw [henv.command hname]
    apply Exec.Alike.bind (.refl _)
    intro kind
    apply Exec.Alike.bind (.of_result (.of_shape (h.check_toOption kind)))
    intro _
    apply Exec.Alike.bind (.refl _)
    intro ctx
    rw [henv.checkEnabled_eq, henv.checkEnabled_eq]
    exact .bind (.refl _) fun _ => hrun kind

theorem runBlock?_alike (henv : env.Conflates commands tests) (mail : Mail) : ∀ {block block' : Option Script},
    Script.Renames? commands tests block block' → Exec.Alike (env.runBlock? mail block) (env.runBlock? mail block')
  | _, _, .none => .refl _
  | _, _, .some h => runCommands_alike henv mail h

theorem runCommands_alike (henv : env.Conflates commands tests) (mail : Mail) : ∀ {cs cs' : Script},
    Script.Renames commands tests cs cs' → Exec.Alike (env.runCommands mail cs) (env.runCommands mail cs')
  | _, _, .nil => .refl _
  | _, _, .cons h hs => by
    rw [runCommands_cons, runCommands_cons]
    apply Exec.Alike.bind (runCommand_alike henv mail h)
    intro flow
    cases flow with
    | stop => exact .refl _
    | next => exact runCommands_alike henv mail hs
end

theorem execute_alike (henv : env.Conflates commands tests) {script script' : Script}
    (h : Script.Renames commands tests script script') (mail : Mail) :
    (env.execute script mail).actions = (env.execute script' mail).actions ∧
      Alike (env.execute script mail).result (env.execute script' mail).result := by
  have hvalid := henv.validate_alike h
  have hrun := henv.runCommands_alike mail h {}
  unfold execute
  generalize env.validate script = v, env.validate script' = v' at hvalid ⊢
  cases hvalid with
  | ok => exact ⟨congrArg Context.actions hrun.1, hrun.2⟩
  | error he => exact ⟨rfl, .error he⟩

end Conflates

end

/-! ## Settings with aliases -/

/-- Both scripts are accepted or neither, and against every message they collect the same
actions and end the same way, or with errors that differ in the wording of a fault at most. -/
structure Interchangeable (env : Environment) (script script' : Script) : Prop where
  accepted : env.validate script = .ok () ↔ env.validate script' = .ok ()
  actions : ∀ mail, (env.execute script mail).actions = (env.execute script' mail).actions
  result : ∀ mail, Alike (env.execute script mail).result (env.execute script' mail).result

theorem Conflates.interchangeable {env : Environment} {commands tests : String → String → Prop}
    (henv : env.Conflates commands tests) {script script' : Script}
    (h : Script.Renames commands tests script script') : env.Interchangeable script script' where
  accepted := (henv.validate_alike h).eq_ok_iff
  actions mail := (henv.execute_alike h mail).1
  result mail := (henv.execute_alike h mail).2

def SharesCommand (env : Environment) (n n' : String) : Prop :=
  (∃ kind, env.commands.get? n = some kind ∧ env.commands.get? n' = some kind) ∧
    n ∉ controlWords ∧ n' ∉ controlWords

def SharesTest (env : Environment) (n n' : String) : Prop :=
  ∃ kind, env.tests.get? n = some kind ∧ env.tests.get? n' = some kind

theorem lookup_of_swaps {r : Registry α} {n n' a b : String} {value : α} (h : Swaps n n' a b)
    (hn : r.get? n = some value) (hn' : r.get? n' = some value) : r.lookup a = r.lookup b := by
  rcases h with rfl | ⟨rfl, rfl⟩
  · rfl
  · rw [Registry.lookup_eq_ok.2 hn, Registry.lookup_eq_ok.2 hn']

section
variable {s : Settings} {env : Environment} {n n' : String}

theorem enforceRequire_of_ofSettings (henv : ofSettings s = .ok env) : env.enforceRequire = s.enforceRequire := by
  obtain ⟨commands, -, henv⟩ := bind_eq_ok.1 henv
  obtain ⟨tests, -, henv⟩ := bind_eq_ok.1 henv
  obtain ⟨comparators, -, henv⟩ := bind_eq_ok.1 henv
  cases pure_eq_ok.1 henv
  rfl

theorem SharesCommand.conflates (h : env.SharesCommand n n') (hbuiltin : env.HostFree)
    (hlenient : env.enforceRequire = false) : env.Conflates (Swaps n n') Eq where
  command := by
    intro a b hab
    obtain ⟨⟨kind, hn, hn'⟩, -⟩ := h
    exact lookup_of_swaps hab hn hn'
  control := by
    intro a b hab word hword
    obtain ⟨-, hn, hn'⟩ := h
    rcases hab with rfl | ⟨rfl, rfl⟩
    · rfl
    · constructor
      · intro ha
        exact absurd (ha ▸ hword) hn
      · intro hb
        exact absurd (hb ▸ hword) hn'
  test := congrArg _
  builtin := hbuiltin
  lenient := hlenient

theorem SharesTest.conflates (h : env.SharesTest n n') (hbuiltin : env.HostFree)
    (hlenient : env.enforceRequire = false) : env.Conflates Eq (Swaps n n') where
  command := congrArg _
  control := by
    intro a b hab word _
    rw [hab]
  test := by
    intro a b hab
    obtain ⟨kind, hn, hn'⟩ := h
    exact lookup_of_swaps hab hn hn'
  builtin := hbuiltin
  lenient := hlenient

end

/-- Under lenient settings, a name for a command or for a test can be replaced by another name
for the same one wherever it occurs. -/
theorem interchangeable_of_swaps (s : Settings) (env : Environment) (henv : ofSettings s = .ok env)
    (hlenient : s.enforceRequire = false) (n n' : String) (script script' : Script)
    (h : env.SharesCommand n n' ∧ Script.Renames (Swaps n n') Eq script script' ∨
      env.SharesTest n n' ∧ Script.Renames Eq (Swaps n n') script script') :
    env.Interchangeable script script' := by
  have hbuiltin := hostFree_of_ofSettings henv
  rw [← enforceRequire_of_ofSettings henv] at hlenient
  rcases h with ⟨hshares, hrenames⟩ | ⟨hshares, hrenames⟩
  · exact (hshares.conflates hbuiltin hlenient).interchangeable hrenames
  · exact (hshares.conflates hbuiltin hlenient).interchangeable hrenames

def aliased : Settings :=
  { Settings.standard with
    commands := Settings.standard.commands.insert "retain" "keep"
    tests := Settings.standard.tests.insert "field" "header" }

def keeping (inner outer test : String) : Script := [
  ⟨"if", [], some [⟨"not", [], some [⟨test, [.strings ["From"], .strings ["x"]], none, ⟨1, 8⟩⟩], ⟨1, 4⟩⟩],
    some [⟨inner, [], none, none, ⟨1, 30⟩⟩], ⟨1, 1⟩⟩,
  ⟨outer, [], none, none, ⟨2, 1⟩⟩,
  ⟨"reject", [.strings ["no"]], none, none, ⟨3, 1⟩⟩]

theorem keeping_renames {commands tests : String → String → Prop} {inner inner' outer outer' test test' : String}
    (hwords : ∀ word ∈ ["if", "reject"], commands word word) (hnot : tests "not" "not")
    (hinner : commands inner inner') (houter : commands outer outer') (htest : tests test test') :
    Script.Renames commands tests (keeping inner outer test) (keeping inner' outer' test') :=
  .cons (.mk (hwords _ (by simp)) (.some (.cons (.mk hnot (.some (.cons (.mk htest .none) .nil))) .nil))
      (.some (.cons (.mk hinner .none .none) .nil)))
    (.cons (.mk houter .none .none) (.cons (.mk (hwords _ (by simp)) .none .none) .nil))

theorem interchangeable_of_swaps_aliased : ∃ env, ofSettings aliased = .ok env ∧ aliased.enforceRequire = false ∧
    (env.execute (keeping "keep" "keep" "header") plainMail).actions = [.keep, .keep] ∧
    (env.execute (keeping "keep" "keep" "header") plainMail).result =
      .error (.command .rejectNotAlone (some ⟨3, 1⟩)) ∧
    (env.SharesCommand "keep" "retain" ∧
      Script.Renames (Swaps "keep" "retain") Eq (keeping "keep" "keep" "header")
        (keeping "retain" "keep" "header") ∧
      env.Interchangeable (keeping "keep" "keep" "header") (keeping "retain" "keep" "header")) ∧
    env.SharesTest "header" "field" ∧
      Script.Renames Eq (Swaps "header" "field") (keeping "keep" "keep" "header") (keeping "keep" "keep" "field") ∧
      env.Interchangeable (keeping "keep" "keep" "header") (keeping "keep" "keep" "field") := by
  obtain ⟨env, henv⟩ : ∃ env, ofSettings aliased = .ok env := ⟨_, rfl⟩
  have hcommand : env.SharesCommand "keep" "retain" := by
    cases henv
    exact ⟨⟨.keep, rfl, rfl⟩, by decide, by decide⟩
  have htest : env.SharesTest "header" "field" := by
    cases henv
    exact ⟨.header, rfl, rfl⟩
  have hkept : Script.Renames (Swaps "keep" "retain") Eq (keeping "keep" "keep" "header")
      (keeping "retain" "keep" "header") :=
    keeping_renames (fun _ _ => .inl rfl) rfl (.inr ⟨rfl, rfl⟩) (.inl rfl) rfl
  have htested : Script.Renames Eq (Swaps "header" "field") (keeping "keep" "keep" "header")
      (keeping "keep" "keep" "field") :=
    keeping_renames (fun _ _ => rfl) (.inl rfl) rfl rfl (.inr ⟨rfl, rfl⟩)
  refine ⟨env, henv, rfl, ?_, ?_, ⟨hcommand, hkept, ?_⟩, htest, htested, ?_⟩
  · cases henv
    rfl
  · cases henv
    rfl
  · exact interchangeable_of_swaps aliased env henv rfl _ _ _ _ (.inl ⟨hcommand, hkept⟩)
  · exact interchangeable_of_swaps aliased env henv rfl _ _ _ _ (.inr ⟨htest, htested⟩)

end Environment

end MailSieve
