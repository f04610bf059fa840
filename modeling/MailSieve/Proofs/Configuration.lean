import MailSieve.Proofs.Soundness
import MailSieve.Registry.Settings

/-!
# Environments made from settings

Settings may leave out commands, tests and comparators and give them other names. The static
walk looks for `require` and for the arms of a chain by name, and at the comparators a test
names. So it is enough where these commands keep their names and the comparator that is used
when none is named is there, and under other settings it is not.
-/

namespace MailSieve

/-! ## What settings register -/

theorem Registry.register_eq_ok {r r' : Registry α} {name : String} {value : α}
    (h : r.register name value = .ok r') : r' = r.insert name value := by
  unfold register at h
  split at h
  · cases h
  · cases h; rfl

theorem mem_of_lookup {entries : List (String × α)} {name : String} {value : α}
    (h : entries.lookup name = some value) : (name, value) ∈ entries := by
  obtain ⟨before, rest, rfl, -⟩ := List.lookup_eq_some_iff.1 h
  exact List.mem_append_right _ List.mem_cons_self

theorem CommandKind.ofId?_eq_some {id : String} {kind : CommandKind} (h : ofId? id = some kind) :
    kind.id = id := by
  simpa using List.find?_some h

namespace Environment

section
variable {builtin? : String → Option α} {entries : List (String × String)} {r r' : Registry α}

theorem registerAll_cons_eq_ok {name id : String} (h : registerAll builtin? r ((name, id) :: entries) = .ok r') :
    ∃ value, builtin? id = some value ∧ registerAll builtin? (r.insert name value) entries = .ok r' := by
  unfold registerAll at h
  split at h
  · cases h
  · next value hvalue =>
    split at h
    · cases h
    · next r₁ hr =>
      rw [Registry.register_eq_ok hr] at h
      exact ⟨value, hvalue, h⟩

/-- What is found after registration stands behind an entry, or was there before. -/
theorem get?_of_registerAll (h : registerAll builtin? r entries = .ok r') {name : String} {value : α}
    (hget : r'.get? name = some value) :
    (∃ id, (name, id) ∈ entries ∧ builtin? id = some value) ∨ r.get? name = some value := by
  induction entries generalizing r with
  | nil =>
    cases h
    exact .inr hget
  | cons entry entries ih =>
    obtain ⟨n, id⟩ := entry
    obtain ⟨v, hv, h⟩ := registerAll_cons_eq_ok h
    rcases ih h with ⟨id', hmem, hid⟩ | hold
    · exact .inl ⟨id', List.mem_cons_of_mem _ hmem, hid⟩
    · rw [Registry.get?_insert] at hold
      by_cases hn : name = n
      · rw [if_pos hn] at hold
        cases hold
        exact .inl ⟨id, hn ▸ List.mem_cons_self, hv⟩
      · rw [if_neg hn] at hold
        exact .inr hold

/-- Every name of the entries is found. -/
theorem contains_of_registerAll (h : registerAll builtin? r entries = .ok r') {name : String}
    (hname : name ∈ entries.map Prod.fst ∨ (r.get? name).isSome = true) : (r'.get? name).isSome = true := by
  induction entries generalizing r with
  | nil =>
    cases h
    exact hname.resolve_left List.not_mem_nil
  | cons entry entries ih =>
    obtain ⟨n, id⟩ := entry
    obtain ⟨v, -, h⟩ := registerAll_cons_eq_ok h
    apply ih h
    rw [Registry.get?_insert]
    by_cases hn : name = n
    · exact .inr (by rw [if_pos hn]; rfl)
    · rw [if_neg hn]
      refine hname.imp_left ?_
      intro hmem
      exact (List.mem_cons.1 hmem).resolve_left hn

end

theorem ofSettings_eq_ok {s : Settings} {env : Environment} (h : ofSettings s = .ok env) :
    registerAll CommandKind.ofId? (.empty .command s.duplicatePolicy) s.commands.entries = .ok env.commands ∧
    registerAll TestKind.ofId? (.empty .test s.duplicatePolicy) s.tests.entries = .ok env.tests ∧
    registerAll Comparator.ofId? (.empty .comparator s.duplicatePolicy) s.comparators.entries =
      .ok env.comparators := by
  obtain ⟨commands, hcommands, h⟩ := bind_eq_ok.1 h
  obtain ⟨tests, htests, h⟩ := bind_eq_ok.1 h
  obtain ⟨comparators, hcomparators, h⟩ := bind_eq_ok.1 h
  cases pure_eq_ok.1 h
  exact ⟨hcommands, htests, hcomparators⟩

end Environment

/-! ## Settings that keep the control commands -/

/-- Settings under which the static walk sees what it looks for by name: `require` stands
under its name and nothing else does, `elsif` and `else` stand under these two names, what is
called `if` or `elsif` opens a chain, and the comparator used when none is named is there. -/
structure Settings.KeepsControls (s : Settings) : Prop where
  require : ∀ e ∈ s.commands.entries, e.2 = "require" ↔ e.1 = "require"
  arm : ∀ e ∈ s.commands.entries, e.2 = "elsif" ∨ e.2 = "else" → e.1 = "elsif" ∨ e.1 = "else"
  opening : ∀ e ∈ s.commands.entries, e.1 = "if" ∨ e.1 = "elsif" → e.2 = "if" ∨ e.2 = "elsif"
  comparator : defaultComparator ∈ s.comparators.names

namespace Environment

section
variable {s : Settings} {env : Environment}

theorem controls_of_ofSettings (henv : ofSettings s = .ok env) (hkeeps : s.KeepsControls) {name : String}
    {kind : CommandKind} (hlook : env.commands.lookup name = .ok kind) : Controls name kind := by
  have hget := Registry.lookup_eq_ok.1 hlook
  rcases get?_of_registerAll (ofSettings_eq_ok henv).1 hget with ⟨id, hmem, hid⟩ | hempty
  · obtain rfl := CommandKind.ofId?_eq_some hid
    have hrequire := hkeeps.require _ hmem
    have harm := hkeeps.arm _ hmem
    have hopening := hkeeps.opening _ hmem
    constructor
    · rw [show requireName = "require" from rfl, ← hrequire]
      exact ⟨fun h => h ▸ rfl, fun h => eq_of_id_eq h⟩
    · intro h
      apply harm
      exact h.imp (congrArg CommandKind.id) (congrArg CommandKind.id)
    · intro h
      exact (hopening h).imp (fun h => eq_of_id_eq h) (fun h => eq_of_id_eq h)
  · cases hempty

theorem hostFree_of_ofSettings (henv : ofSettings s = .ok env) : env.HostFree := by
  intro name test hlook
  have hget := Registry.lookup_eq_ok.1 hlook
  rcases get?_of_registerAll (ofSettings_eq_ok henv).2.1 hget with ⟨id, -, hid⟩ | hempty
  · have hmem := mem_of_lookup hid
    simp [TestKind.all] at hmem
  · cases hempty

theorem comparator_of_ofSettings (henv : ofSettings s = .ok env) {name : String}
    (hname : name ∈ s.comparators.names) (enabled : List String) :
    ∃ c, env.comparator enabled name = .ok c := by
  have hregister := (ofSettings_eq_ok henv).2.2
  obtain ⟨c, hget⟩ := Option.isSome_iff_exists.1 (contains_of_registerAll hregister (.inl hname))
  refine ⟨c, comparator_eq_ok.2 ⟨Registry.lookup_eq_ok.2 hget, ?_⟩⟩
  rcases get?_of_registerAll hregister hget with ⟨id, -, hid⟩ | hempty
  · have hcore : c.isExtension = false := by
      have hmem := mem_of_lookup hid
      simp only [Comparator.all, List.mem_cons, Prod.mk.injEq, List.not_mem_nil, or_false] at hmem
      rcases hmem with ⟨-, rfl⟩ | ⟨-, rfl⟩ <;> rfl
    rw [hcore]
    exact checkEnabled_core ..
  · cases hempty

theorem reliable_of_ofSettings (henv : ofSettings s = .ok env) (hkeeps : s.KeepsControls) : env.Reliable where
  controls := controls_of_ofSettings henv hkeeps
  ready := fun hsub =>
    ⟨hsub, hostFree_of_ofSettings henv, comparator_of_ofSettings henv hkeeps.comparator _⟩

end

/-! ## Static errors come first -/

/-- How a run may end that has no static error left: it goes through, the mail cannot be
read, or a command that acts on the message clashes with a rejection, being one itself or
meeting one. -/
def EndsWithoutStaticError (env : Environment) (mail : Mail) (script : Script) (run : Execution) : Prop :=
  match run.result with
  | .ok _ => True
  | .error (.mail e) => mail.Fails e
  | .error (.command fault position) =>
    fault = .rejectNotAlone ∧ run.actions ≠ [] ∧
      ∃ c ∈ Script.preorder script, position = some c.position ∧
        ∃ kind, env.commands.lookup c.name = .ok kind ∧ kind.id ∈ actionNames ∧
          (kind = .reject ∨ ∃ message, run.actions = [.reject message])
  | .error (.illFormed ..) | .error (.lookup ..) => False

/-- Whatever settings restrict, extend or rename beside the control commands, all static
errors are found before any action is collected. -/
theorem execute_endsWithoutStaticError (s : Settings) (env : Environment) (henv : ofSettings s = .ok env)
    (hkeeps : s.KeepsControls) (script : Script) (hok : env.validate script = .ok ()) (mail : Mail) :
    env.EndsWithoutStaticError mail script (env.execute script mail) := by
  unfold EndsWithoutStaticError
  cases h : (env.execute script mail).result with
  | ok flow => trivial
  | error e =>
    rcases execute_lateError (reliable_of_ofSettings henv hkeeps) hok h with
      ⟨m, rfl, hm⟩ | ⟨c, hc, kind, hlook, hmem, rfl, hne, hr⟩
    · exact hm
    · exact ⟨rfl, hne, c, hc, rfl, kind, hlook, hmem, hr⟩

def renamed : Settings where
  commands := .ofList [("if", "if"), ("else", "else"), ("require", "require"), ("file", "fileinto"),
    ("retain", "keep"), ("refuse", "reject")]
  tests := .ofList [("field", "header"), ("unless", "not")]
  comparators := .ofList [("i;ascii-casemap", "i;ascii-casemap"), ("bytes", "i;octet")]
  duplicatePolicy := .reject
  enforceRequire := true

def renamedScript : Script := [
  ⟨"require", [.strings ["file", "refuse"]], none, none, ⟨1, 1⟩⟩,
  ⟨"if", [], some [⟨"unless", [], some [
      ⟨"field", [.tag ":comparator", .strings ["bytes"], .strings ["From"], .strings ["x"]], none, ⟨2, 11⟩⟩],
      ⟨2, 4⟩⟩],
    some [⟨"file", [.strings ["A"]], none, none, ⟨2, 50⟩⟩], ⟨2, 1⟩⟩,
  ⟨"else", [], none, some [⟨"retain", [], none, none, ⟨3, 8⟩⟩], ⟨3, 1⟩⟩,
  ⟨"refuse", [.strings ["no"]], none, none, ⟨4, 1⟩⟩]

theorem execute_endsWithoutStaticError_renamed : renamed.KeepsControls ∧ ∃ env,
    ofSettings renamed = .ok env ∧ env.validate renamedScript = .ok () ∧
    (env.execute renamedScript plainMail).result = .error (.command .rejectNotAlone (some ⟨4, 1⟩)) ∧
    (env.execute renamedScript plainMail).actions = [.fileInto "A"] ∧
    env.EndsWithoutStaticError plainMail renamedScript (env.execute renamedScript plainMail) := by
  have hkeeps : renamed.KeepsControls := by
    constructor <;> decide
  obtain ⟨env, henv⟩ : ∃ env, ofSettings renamed = .ok env := ⟨_, rfl⟩
  have hok : env.validate renamedScript = .ok () := by
    cases henv
    rfl
  refine ⟨hkeeps, env, henv, hok, ?_, ?_,
    execute_endsWithoutStaticError renamed env henv hkeeps renamedScript hok plainMail⟩
  · cases henv
    rfl
  · cases henv
    rfl

def octetOnly : Settings :=
  { Settings.standard with comparators := .ofList [("i;octet", "i;octet")] }

def namesNoComparator : Script := [
  ⟨"keep", [], none, none, ⟨1, 1⟩⟩,
  ⟨"if", [], some [⟨"header", [.strings ["Subject"], .strings ["x"]], none, ⟨1, 10⟩⟩],
    some [⟨"discard", [], none, none, ⟨1, 33⟩⟩], ⟨1, 7⟩⟩]

def renamedControls : Settings :=
  { Settings.standard with
    commands := (Settings.standard.commands.insert "otherwise" "else").insert "need" "require" }

def danglingArm : Script := [
  ⟨"keep", [], none, none, ⟨1, 1⟩⟩,
  ⟨"otherwise", [], none, some [⟨"discard", [], none, none, ⟨1, 19⟩⟩], ⟨1, 7⟩⟩]

def lateRequirement : Script := [
  ⟨"keep", [], none, none, ⟨1, 1⟩⟩,
  ⟨"need", [.strings ["nothing"]], none, none, ⟨1, 7⟩⟩]

/-- Scripts that are accepted, and fail with a static error when an action has been collected. -/
theorem execute_staticError_late :
    (∃ env, ofSettings octetOnly = .ok env ∧ env.validate namesNoComparator = .ok () ∧
      (env.execute namesNoComparator plainMail).result =
        .error (.lookup .comparator "i;ascii-casemap" .notRegistered) ∧
      (env.execute namesNoComparator plainMail).actions = [.keep]) ∧
    ∃ env, ofSettings renamedControls = .ok env ∧
      (env.validate danglingArm = .ok () ∧
        (env.execute danglingArm plainMail).result =
          .error (.illFormed (.placement (.danglingBranch "else")) (some ⟨1, 7⟩)) ∧
        (env.execute danglingArm plainMail).actions = [.keep]) ∧
      env.validate lateRequirement = .ok () ∧
        (env.execute lateRequirement plainMail).result =
          .error (.lookup .extension "nothing" .notRegistered) ∧
        (env.execute lateRequirement plainMail).actions = [.keep] := by
  exact ⟨⟨_, rfl, rfl, rfl, rfl⟩, _, rfl, ⟨rfl, rfl, rfl⟩, rfl, rfl, rfl⟩

end Environment

end MailSieve
