import MailSieve.Proofs.Agreement
import MailSieve.Proofs.Rules
import MailSieve.Proofs.Soundness

/-!
# Enforcing require

Whether `require` is enforced makes a difference to the scripts that are refused for want of it
and to no others: what passes the strict checks has required all it uses by the time it uses
it, so the check that is made again at every use lets it go on as if there were none.
-/

namespace MailSieve.Environment

def enforcing (env : Environment) (strict : Bool) : Environment :=
  { env with enforceRequire := strict }

/-- Every standard name stands for what it does in the standard environment. There may be
further tests and comparators under other names. -/
structure ExtendsStandard (env : Environment) : Prop where
  commands : env.commands.table = standard.commands.table
  tests : ∀ {name kind}, standard.tests.get? name = some kind → env.tests.get? name = some kind
  comparators : ∀ {name comparator}, standard.comparators.get? name = some comparator →
    env.comparators.get? name = some comparator

section
variable {env : Environment} {mail : Mail} {en enabled : List String}

/-! ## Checks -/

theorem checkEnabled_lenient (env : Environment) (enabled : List String) (kind : EntryKind) (name : String)
    (ext : Bool) : (env.enforcing false).checkEnabled enabled kind name ext = .ok () := by
  simp [checkEnabled, enforcing]

theorem comparator_lenient {name : String} {comparator : Comparator}
    (h : (env.enforcing true).comparator enabled name = .ok comparator) :
    (env.enforcing false).comparator enabled name = .ok comparator := by
  rw [comparator_eq_ok] at h ⊢
  exact ⟨h.1, checkEnabled_lenient ..⟩

theorem enableAll_enforcing (env : Environment) (strict strict' : Bool) (names : List String) :
    (env.enforcing strict).enableAll names = (env.enforcing strict').enableAll names := by
  induction names with
  | nil => rfl
  | cons name names ih =>
    unfold enableAll
    rw [ih]
    rfl

/-- No rule asks more of a script when `require` is not enforced. -/
theorem Obeys.lenient {script : Script} (h : (env.enforcing true).Obeys script) :
    (env.enforcing false).Obeys script where
  requireFirst := h.requireFirst
  requireTop := h.requireTop
  chains := h.chains
  commands := h.commands
  tests := h.tests
  available := h.available
  comparators := h.comparators
  commandsRequired := nofun
  testsRequired := nofun
  comparatorsRequired := nofun

theorem validate_eq_ok_obeysAfter {script : Script} (hrequire : env.commands.lookup requireName = .ok .require) :
    env.validate script = .ok () ↔ ObeysAfter env [] none script :=
  verdict_eq_ok.trans (validateSequence_eq_ok_obeysAfter hrequire rfl)

theorem validate_lenient {script : Script} (hrequire : env.commands.lookup requireName = .ok .require)
    (h : (env.enforcing true).validate script = .ok ()) : (env.enforcing false).validate script = .ok () := by
  have hrequire (strict : Bool) : (env.enforcing strict).commands.lookup requireName = .ok .require := hrequire
  have hobeys := obeys_of_obeysAfter ((validate_eq_ok_obeysAfter (hrequire true)).1 h)
  exact (validate_eq_ok_obeysAfter (hrequire false)).2 (obeysAfter_of_obeys hobeys.lenient)

/-! ## Tests -/

/-- The control commands stand where the static walk looks for them, and the comparator used
when none is named can be used without being required. -/
structure Regular (env : Environment) : Prop where
  controls : ∀ {name kind}, env.commands.lookup name = .ok kind → Controls name kind
  default : ∀ {comparator}, env.comparators.lookup defaultComparator = .ok comparator →
    comparator.isExtension = false

theorem comparator_default (hregular : env.Regular) :
    (env.enforcing true).comparator enabled defaultComparator =
      (env.enforcing false).comparator enabled defaultComparator := by
  unfold comparator
  show (env.comparators.lookup _ >>= _) = (env.comparators.lookup _ >>= _)
  cases hlook : env.comparators.lookup defaultComparator with
  | error e => rfl
  | ok c => simp only [ok_bind, hregular.default hlook, checkEnabled_core]

theorem AcceptsTest.comparator_eq (hregular : env.Regular) {t : Test} {kind : TestKind}
    (h : AcceptsTest (env.enforcing true) en t kind) (hsub : en ⊆ enabled) {takesPart : Bool} {n : Nat}
    {args : Comparison} (hargs : Comparison.ofTest t takesPart n = .ok args) :
    (env.enforcing true).comparator enabled args.comparator =
      (env.enforcing false).comparator enabled args.comparator := by
  rcases Comparison.ofTest_comparator hargs with hname | hname
  · rw [hname]
    exact comparator_default hregular
  · obtain ⟨c, hc⟩ := h.comparators _ hname
    have hstrict := comparator_mono hsub hc
    rw [hstrict, comparator_lenient hstrict]

theorem compareRead_congr_env {env env' : Environment} {t : Test} {takesPart : Bool}
    {read : String → Except MailError (List String)} {parts : AddressPart → String → List String}
    (h : ∀ args, Comparison.ofTest t takesPart 2 = .ok args →
      env.comparator enabled args.comparator = env'.comparator enabled args.comparator) :
    env.compareRead enabled t takesPart read parts = env'.compareRead enabled t takesPart read parts := by
  unfold compareRead
  cases hargs : Comparison.ofTest t takesPart 2 with
  | error fault => rfl
  | ok args => simp only [liftShape, ok_bind, h args hargs]

theorem AcceptsTest.leafValue_eq (hregular : env.Regular) {t : Test} {kind : TestKind}
    (h : AcceptsTest (env.enforcing true) en t kind) (hsub : en ⊆ enabled) :
    (env.enforcing true).leafValue enabled mail kind t = (env.enforcing false).leafValue enabled mail kind t := by
  cases kind with
  | header | address | envelope =>
    unfold leafValue
    apply compareRead_congr_env
    intro args hargs
    exact h.comparator_eq hregular hsub hargs
  | _ => rfl

theorem AcceptsTest.sameUse (hregular : env.Regular) {t : Test} {kind : TestKind}
    (h : AcceptsTest (env.enforcing true) en t kind) (hsub : en ⊆ enabled) :
    SameUse (env.enforcing true) (env.enforcing false) mail mail enabled t where
  lookup := rfl
  allowed := by
    intro kind' hlook
    cases hlook.symm.trans h.lookup
    rw [checkEnabled_mono hsub h.enabled, checkEnabled_lenient]
  value := by
    intro kind' hlook
    cases hlook.symm.trans h.lookup
    exact h.leafValue_eq hregular hsub

theorem evaluate_lenient (hregular : env.Regular) {t : Test}
    (h : (env.enforcing true).validateTest en t = .ok ()) (hsub : en ⊆ enabled) :
    (env.enforcing true).evaluate enabled mail t = (env.enforcing false).evaluate enabled mail t := by
  apply evaluate_congr
  intro u hu
  obtain ⟨kind, haccepts⟩ := validateTest_eq_ok_forall.1 h u hu
  exact haccepts.sameUse hregular hsub

/-! ## Commands -/

mutual
theorem runCommand_lenient (hregular : env.Regular) :
    ∀ {c : Command} {p : Place} {en en' : List String} {ctx : Context},
    (env.enforcing true).validateCommand en c = .ok en' → Tracks en p ctx →
    (env.enforcing true).runCommand mail c ctx = (env.enforcing false).runCommand mail c ctx
  | ⟨name, arguments, tests, block, position⟩, p, en, en', ctx, hok, htracks => by
    obtain ⟨kind, en₁, haccepts, hreq, htests, hblock⟩ := validateCommand_eq_ok.1 hok
    apply runCommand_congr
    · rfl
    · intro kind' hlook
      cases hlook.symm.trans haccepts.lookup
      rw [checkEnabled_mono htracks.enabled haccepts.enabled, checkEnabled_lenient]
    · intro kind' _
      by_cases hn : name = requireName
      · -- what is required here counts for the commands after this one, which has no test and no block
        rw [Requires, if_pos hn] at hreq
        obtain ⟨names, hnames, -⟩ := hreq
        obtain ⟨hnone, -, hbare⟩ := requirements_eq_ok.1 hnames
        apply perform_congr (env.enableAll_enforcing true false)
        · intro t body hc
          rw [(Command.conditional_eq_ok.1 hc).2.2] at hbare
          cases hbare
        · rw [hnone, runBlock?, runBlock?]
      · rw [Requires, if_neg hn] at hreq
        subst hreq
        apply perform_congr (env.enableAll_enforcing true false)
        · intro t body hc
          have ht : tests = some [t] := (Command.conditional_eq_ok.1 hc).2.2
          subst ht
          exact evaluate_lenient hregular (validateTests_eq_ok.1 htests t List.mem_cons_self) htracks.enabled
        · exact runBlock?_lenient hregular hblock ⟨htracks.enabled, nofun, htracks.alone⟩

theorem runBlock?_lenient (hregular : env.Regular) :
    ∀ {block : Option (List Command)} {en en' : List String} {ctx : Context},
    (env.enforcing true).validateBlock? en block = .ok en' → Tracks en (.start false) ctx →
    (env.enforcing true).runBlock? mail block ctx = (env.enforcing false).runBlock? mail block ctx
  | none, _, _, _, _, _ => by rw [runBlock?, runBlock?]
  | some _, _, _, _, hok, htracks => by
    rw [runBlock?, runBlock?]
    exact runCommands_lenient hregular hok htracks

theorem runCommands_lenient (hregular : env.Regular) :
    ∀ {cs : List Command} {p : Place} {en en' : List String} {ctx : Context},
    (env.enforcing true).validateSequence en p cs = .ok en' → Tracks en p ctx →
    (env.enforcing true).runCommands mail cs ctx = (env.enforcing false).runCommands mail cs ctx
  | [], _, _, _, _, _, _ => by rw [runCommands, runCommands]
  | c :: cs, p, en, en', ctx, hok, htracks => by
    obtain ⟨hp, en₁, hcommand, hrest⟩ := validateSequence_cons_eq_ok.1 hok
    obtain ⟨kind, _, haccepts, -⟩ := validateCommand_eq_ok.1 hcommand
    apply runCommands_cons_congr (runCommand_lenient hregular hcommand htracks)
    intro hnext
    have htracks' := htracks.runCommand (hregular.controls haccepts.lookup) hp haccepts hcommand hnext
    exact runCommands_lenient hregular hrest htracks'
end

theorem execute_lenient (hregular : env.Regular) {script : Script}
    (hstrict : (env.enforcing true).validate script = .ok ())
    (hlenient : (env.enforcing false).validate script = .ok ()) (mail : Mail) :
    (env.enforcing true).execute script mail = (env.enforcing false).execute script mail := by
  obtain ⟨en, hwalk⟩ := verdict_eq_ok.1 hstrict
  have hstart : Tracks [] (.start true) {} := ⟨List.nil_subset _, nofun, nofun⟩
  unfold execute
  simp only [hstrict, hlenient, runCommands_lenient hregular hwalk hstart]

end

/-! ## Extensions of the standard environment -/

theorem ExtendsStandard.lookup_command {env : Environment} (h : env.ExtendsStandard) {name : String}
    {kind : CommandKind} : env.commands.lookup name = .ok kind ↔ name = kind.id := by
  rw [← standard_commands_lookup_eq_ok, Registry.lookup_eq_ok, Registry.lookup_eq_ok, Registry.get?,
    Registry.get?, h.commands]

theorem ExtendsStandard.regular {env : Environment} (h : env.ExtendsStandard) : env.Regular where
  controls := by
    intro name kind hlook
    rw [h.lookup_command] at hlook
    exact hlook ▸ controls_id kind
  default := by
    intro comparator hlook
    have hstandard : standard.comparators.get? defaultComparator = some .asciiCasemap := rfl
    rw [Registry.lookup_eq_ok, h.comparators hstandard] at hlook
    cases hlook
    rfl

/-- In any extension of the standard environment, enforcing `require` refuses scripts and does
nothing else: a script that passes strictly passes leniently too, and runs the same against
every message, to the same actions and the same end or error. -/
theorem execute_enforcing (env : Environment) (hextends : env.ExtendsStandard) (script : Script)
    (hok : (env.enforcing true).validate script = .ok ()) :
    (env.enforcing false).validate script = .ok () ∧
      ∀ mail, (env.enforcing true).execute script mail = (env.enforcing false).execute script mail := by
  have hrequire : env.commands.lookup requireName = .ok .require := hextends.lookup_command.2 rfl
  have hlenient := validate_lenient hrequire hok
  exact ⟨hlenient, execute_lenient hextends.regular hok hlenient⟩

def bulky : HostTest where
  check _ := .ok ()
  evaluate mail _ := do
    match mail.size with
    | .ok size => return 1000 < size
    | .error e => throw (.mail e)
  isExtension := true

def extended : Environment :=
  { standard with
    tests := standard.tests.insert "bulky" (.host bulky)
    comparators := standard.comparators.insert "i;own" { Comparator.octet with isExtension := true } }

theorem extendsStandard_extended : extended.ExtendsStandard where
  commands := rfl
  tests := by
    intro name kind h
    show (standard.tests.insert _ _).get? name = _
    rw [Registry.get?_insert, if_neg, h]
    rintro rfl
    cases h
  comparators := by
    intro name comparator h
    show (standard.comparators.insert _ _).get? name = _
    rw [Registry.get?_insert, if_neg, h]
    rintro rfl
    cases h

/-- Uses the test, the comparator and a command that have been required, at different depths,
and ends over a rejection. -/
def requiresAll : Script := [
  ⟨"require", [.strings ["bulky", "comparator-i;own"]], none, none, ⟨1, 1⟩⟩,
  ⟨"require", [.strings ["reject"]], none, none, ⟨2, 1⟩⟩,
  ⟨"keep", [], none, none, ⟨3, 1⟩⟩,
  ⟨"if", [], some [⟨"bulky", [], none, ⟨4, 4⟩⟩], some [⟨"stop", [], none, none, ⟨4, 12⟩⟩], ⟨4, 1⟩⟩,
  ⟨"elsif", [], some [⟨"not", [], some [
      ⟨"header", [.tag ":comparator", .strings ["i;own"], .strings ["From"], .strings ["x"]], none, ⟨5, 11⟩⟩],
      ⟨5, 7⟩⟩],
    some [⟨"reject", [.strings ["no"]], none, none, ⟨5, 60⟩⟩], ⟨5, 1⟩⟩]

theorem execute_enforcing_requiresAll : extended.ExtendsStandard ∧
    (extended.enforcing true).validate requiresAll = .ok () ∧
    ((extended.enforcing true).execute requiresAll plainMail).result =
      .error (.command .rejectNotAlone (some ⟨5, 60⟩)) ∧
    (extended.enforcing false).validate requiresAll = .ok () ∧
    ∀ mail, (extended.enforcing true).execute requiresAll mail =
      (extended.enforcing false).execute requiresAll mail := by
  have hok : (extended.enforcing true).validate requiresAll = .ok () := by rfl
  exact ⟨extendsStandard_extended, hok, by rfl,
    execute_enforcing extended extendsStandard_extended requiresAll hok⟩

end MailSieve.Environment
