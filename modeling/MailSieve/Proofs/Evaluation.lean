import MailSieve.Proofs.Acceptance
import MailSieve.Proofs.StandardNames

/-!
# Tests that pass the checks

A test that was accepted can fail at run time only because the mail could not
be read. The comparator it uses is one it names, which was checked, or the
default one.
-/

namespace MailSieve

/-! ## Comparators -/

namespace Comparison

theorem fill_eq_ok {slot filled : Option α} {value : α} {name what : String} :
    fill slot value name what = .ok filled ↔ slot = none ∧ filled = some value := by
  unfold fill
  cases slot with
  | none => simp [eq_comm]
  | some a => simp

theorem addTag_comparator {name tag : String} {takesPart : Bool} {tags tags' : ComparisonTags}
    (h : addTag name takesPart tags tag = .ok tags') : tags'.comparator = tags.comparator := by
  unfold addTag at h
  split at h
  · obtain ⟨_, -, h⟩ := bind_eq_ok.1 h
    cases h; rfl
  · split at h
    · obtain ⟨_, -, h⟩ := bind_eq_ok.1 h
      cases h; rfl
    · cases h

theorem namedComparators_tail {args : List Argument} {a : Argument} {c : String}
    (h : c ∈ namedComparators args) : c ∈ namedComparators (a :: args) := by
  cases a with
  | tag tag =>
    cases args with
    | nil => cases h
    | cons b rest =>
      cases b with
      | strings items =>
        simp only [namedComparators]
        split
        · exact List.mem_append_right _ h
        · exact h
      | _ => exact h
  | _ => exact h

/-- A comparator is read only where one is named. -/
theorem read_comparator {name : String} {takesPart : Bool} {tags tags' : ComparisonTags}
    {lists lists' : List (List String)} {args : List Argument} {c : String}
    (h : read name takesPart tags lists args = .ok (tags', lists')) (hc : tags'.comparator = some c) :
    tags.comparator = some c ∨ c ∈ namedComparators args := by
  fun_induction read name takesPart tags lists args with
  | case1 => cases h; exact .inl hc
  | case2 tags lists items rest ih => exact (ih h).imp_right namedComparators_tail
  | case3 => cases h
  | case4 => cases h
  | case5 tags lists comparator rest _ ih =>
    obtain ⟨filled, hf, h⟩ := bind_eq_ok.1 h
    rcases ih _ h with hin | hin
    · rw [(fill_eq_ok.1 hf).2] at hin
      cases hin
      exact .inr (by simp [namedComparators])
    · exact .inr (namedComparators_tail (namedComparators_tail hin))
  | case6 => cases h
  | case7 tags lists tag rest _ _ ih =>
    obtain ⟨tags₁, ht, h⟩ := bind_eq_ok.1 h
    rcases ih _ h with hin | hin
    · exact .inl (addTag_comparator ht ▸ hin)
    · exact .inr (namedComparators_tail hin)

theorem ofTest_eq_ok {t : Test} {takesPart : Bool} {n : Nat} {args : Comparison} :
    ofTest t takesPart n = .ok args ↔
      t.tests = none ∧ ∃ tags lists, read t.name takesPart {} [] t.arguments = .ok (tags, lists) ∧
        lists.length = n ∧ args = ⟨tags.comparator.getD defaultComparator, tags.matchType.getD .is,
          tags.addressPart.getD .all, lists⟩ := by
  unfold ofTest
  cases htests : t.tests with
  | some tests =>
    constructor
    · intro h
      cases h
    · intro h
      cases h.1
  | none =>
    simp only [Option.isSome_none, Bool.false_eq_true, if_false, true_and]
    constructor
    · intro h
      obtain ⟨⟨tags, lists⟩, hread, h⟩ := bind_eq_ok.1 h
      by_cases hn : lists.length = n
      · simp only [ne_eq, hn, not_true_eq_false, if_false, pure_eq_ok] at h
        exact ⟨tags, lists, hread, hn, h.symm⟩
      · simp only [ne_eq, hn, not_false_eq_true, if_true] at h
        exact absurd h throw_ne_ok
    · intro h
      obtain ⟨tags, lists, hread, hn, rfl⟩ := h
      simp only [hread, ok_bind, ne_eq, hn, not_true_eq_false, if_false]
      rfl

theorem ofTest_comparator {t : Test} {takesPart : Bool} {n : Nat} {args : Comparison}
    (h : ofTest t takesPart n = .ok args) :
    args.comparator = defaultComparator ∨ args.comparator ∈ namedComparators t.arguments := by
  obtain ⟨-, tags, lists, hread, -, rfl⟩ := ofTest_eq_ok.1 h
  cases hc : tags.comparator with
  | none => exact .inl rfl
  | some c =>
    rcases read_comparator hread hc with hin | hin
    · cases hin
    · exact .inr hin

end Comparison

/-! ## Reading the mail -/

inductive Mail.Fails (mail : Mail) (e : MailError) : Prop
  | header (name : String) : mail.header name = .error e → mail.Fails e
  | size : mail.size = .error e → mail.Fails e
  | envelope (part : String) : mail.envelope part = .error e → mail.Fails e
  | body (phrase : String) : mail.bodyContains phrase = .error e → mail.Fails e

def Error.IsMailFailure (mail : Mail) (e : Error) : Prop :=
  ∃ m, e = .mail m ∧ mail.Fails m

theorem anyRead_error {read : String → Except MailError α} {found : α → Bool} {names : List String}
    {e : Error} (h : anyRead read found names = .error e) :
    ∃ m name, e = .mail m ∧ read name = .error m := by
  induction names with
  | nil => cases h
  | cons name names ih =>
    unfold anyRead at h
    split at h
    · next m hr =>
      cases h
      exact ⟨m, name, rfl, hr⟩
    · split at h
      · cases h
      · exact ih h

theorem allRead_error {read : String → Except MailError α} {found : α → Bool} {names : List String}
    {e : Error} (h : allRead read found names = .error e) :
    ∃ m name, e = .mail m ∧ read name = .error m := by
  induction names with
  | nil => cases h
  | cons name names ih =>
    unfold allRead at h
    split at h
    · next m hr =>
      cases h
      exact ⟨m, name, rfl, hr⟩
    · split at h
      · exact ih h
      · cases h

/-! ## Values of tests -/

namespace Environment

def valueOf (env : Environment) (enabled : List String) (mail : Mail) (kind : TestKind) (t : Test) :
    Traced Bool :=
  match kind with
  | .anyOf => env.evaluateUntil? enabled mail true t.tests
  | .allOf => env.evaluateUntil? enabled mail false t.tests
  | .negation => return !(← env.evaluateUntil? enabled mail true t.tests)
  | kind => ⟨reachedLeaf kind t, env.leafValue enabled mail kind t⟩

theorem evaluate_eq (env : Environment) (enabled : List String) (mail : Mail) (t : Test) :
    env.evaluate enabled mail t = Traced.locate (do
      let kind ← Traced.ofExcept (env.tests.lookup t.name)
      Traced.ofExcept (kind.check t)
      Traced.ofExcept (env.checkEnabled enabled .test t.name kind.isExtension)
      env.valueOf enabled mail kind t) t.position := by
  cases t
  rw [evaluate]
  rfl

theorem evaluate_of_checked {env : Environment} {enabled : List String} {t : Test} {kind : TestKind}
    (hlook : env.tests.lookup t.name = .ok kind) (hcheck : kind.check t = .ok ())
    (hen : env.checkEnabled enabled .test t.name kind.isExtension = .ok ()) (mail : Mail) :
    env.evaluate enabled mail t = (env.valueOf enabled mail kind t).locate t.position := by
  obtain ⟨name, arguments, tests, position⟩ := t
  rw [evaluate]
  simp only at hlook hcheck hen
  simp only [hlook, hcheck, hen, Traced.ofExcept_ok_bind]
  cases kind <;> rfl

/-! ## Errors of accepted tests -/

section
variable {env : Environment} {enabled : List String} {mail : Mail}

theorem compareRead_error {t : Test} {takesPart : Bool} {read : String → Except MailError (List String)}
    {parts : AddressPart → String → List String} {e : Error}
    (hshape : verdict (Comparison.ofTest t takesPart 2) = .ok ())
    (hcomparator : ∀ takesPart n args, Comparison.ofTest t takesPart n = .ok args →
      ∃ c, env.comparator enabled args.comparator = .ok c)
    (h : env.compareRead enabled t takesPart read parts = .error e) :
    ∃ m name, e = .mail m ∧ read name = .error m := by
  obtain ⟨args, hargs⟩ := verdict_eq_ok.1 hshape
  obtain ⟨c, hc⟩ := hcomparator _ _ _ hargs
  simp only [compareRead, hargs, liftShape, hc, ok_bind] at h
  split at h
  · exact anyRead_error h
  · cases h

/-- A leaf that was accepted and is not the host's fails only with the mail. -/
theorem leafValue_error {t : Test} {kind : TestKind} {e : Error} (hhost : ∀ test, kind ≠ .host test)
    (hshape : kind.check t = .ok ())
    (hcomparator : ∀ takesPart n args, Comparison.ofTest t takesPart n = .ok args →
      ∃ c, env.comparator enabled args.comparator = .ok c)
    (h : env.leafValue enabled mail kind t = .error e) : e.IsMailFailure mail := by
  cases kind with
  | constant value => cases h
  | anyOf | allOf | negation => cases h
  | host test => exact absurd rfl (hhost test)
  | header =>
    unfold leafValue at h
    obtain ⟨m, name, rfl, hm⟩ := compareRead_error (liftShape_eq_ok.1 hshape) hcomparator h
    exact ⟨m, rfl, .header name hm⟩
  | address =>
    unfold leafValue at h
    obtain ⟨m, name, rfl, hm⟩ := compareRead_error (liftShape_eq_ok.1 hshape) hcomparator h
    exact ⟨m, rfl, .header name hm⟩
  | envelope =>
    unfold leafValue at h
    obtain ⟨m, part, rfl, hm⟩ := compareRead_error (liftShape_eq_ok.1 hshape) hcomparator h
    exact ⟨m, rfl, .envelope part hm⟩
  | present =>
    obtain ⟨names, hnames⟩ := verdict_eq_ok.1 (liftShape_eq_ok.1 hshape)
    simp only [leafValue, hnames, liftShape, ok_bind] at h
    obtain ⟨m, name, rfl, hm⟩ := allRead_error h
    exact ⟨m, rfl, .header name hm⟩
  | size =>
    obtain ⟨⟨bound, limit⟩, hoperands⟩ := verdict_eq_ok.1 (liftShape_eq_ok.1 hshape)
    simp only [leafValue, hoperands, liftShape, ok_bind] at h
    split at h
    · next m hm => cases h; exact ⟨m, rfl, .size hm⟩
    · cases h
  | body =>
    obtain ⟨keys, hkeys⟩ := verdict_eq_ok.1 (liftShape_eq_ok.1 hshape)
    simp only [leafValue, hkeys, liftShape, ok_bind] at h
    obtain ⟨m, phrase, rfl, hm⟩ := anyRead_error h
    exact ⟨m, rfl, .body phrase hm⟩

def HostFree (env : Environment) : Prop :=
  ∀ name test, env.tests.lookup name ≠ .ok (.host test)

/-- Tests accepted under `en` find what they need when `enabled` is at hand, and
none is the host's. -/
structure Ready (env : Environment) (en enabled : List String) : Prop where
  subset : en ⊆ enabled
  builtin : ∀ name test, env.tests.lookup name ≠ .ok (.host test)
  default : ∃ c, env.comparator enabled defaultComparator = .ok c

variable {en : List String}

mutual
/-- A test accepted under the capabilities at hand fails only with the mail. -/
theorem evaluate_error (hready : env.Ready en enabled) : ∀ {t : Test} {e : Error},
    env.validateTest en t = .ok () → (env.evaluate enabled mail t).result = .error e → e.IsMailFailure mail
  | ⟨name, arguments, tests, position⟩, e, hok, h => by
    obtain ⟨⟨kind, haccepts⟩, htests⟩ := validateTest_eq_ok.1 hok
    have hen := checkEnabled_mono hready.subset haccepts.enabled
    rw [evaluate_of_checked haccepts.lookup haccepts.shape hen] at h
    obtain ⟨e', he, rfl⟩ := error_of_mapError h
    have hcomparator : ∀ takesPart n args, Comparison.ofTest ⟨name, arguments, tests, position⟩ takesPart n =
        .ok args → ∃ c, env.comparator enabled args.comparator = .ok c := by
      intro takesPart n args hargs
      rcases Comparison.ofTest_comparator hargs with hd | hnamed
      · rw [hd]; exact hready.default
      · obtain ⟨c, hc⟩ := haccepts.comparators _ hnamed
        exact ⟨c, comparator_mono hready.subset hc⟩
    have hnot : ∀ test, kind ≠ .host test := fun test hk => hready.builtin name test (hk ▸ haccepts.lookup)
    have hfail : e'.IsMailFailure mail := by
      cases kind with
      | anyOf => exact evaluateUntil?_error hready htests he
      | allOf => exact evaluateUntil?_error hready htests he
      | negation =>
        simp only [valueOf] at he
        rw [Traced.bind_def] at he
        split at he
        · cases he
        · next e'' hu => cases he; exact evaluateUntil?_error hready htests hu
      | _ => exact leafValue_error hnot haccepts.shape hcomparator he
    obtain ⟨m, rfl, hm⟩ := hfail
    exact ⟨m, rfl, hm⟩

theorem evaluateUntil?_error (hready : env.Ready en enabled) : ∀ {ts : Option (List Test)}
    {decisive : Bool} {e : Error}, env.validateTests? en ts = .ok () →
    (env.evaluateUntil? enabled mail decisive ts).result = .error e → e.IsMailFailure mail
  | none, _, _, _, h => nomatch h
  | some _, _, _, hok, h => evaluateUntil_error hready hok h

theorem evaluateUntil_error (hready : env.Ready en enabled) : ∀ {ts : List Test}
    {decisive : Bool} {e : Error}, env.validateTests en ts = .ok () →
    (env.evaluateUntil enabled mail decisive ts).result = .error e → e.IsMailFailure mail
  | [], _, _, _, h => nomatch h
  | t :: ts, decisive, e, hok, h => by
    obtain ⟨ht, hts⟩ := List.forall_mem_cons.1 (validateTests_eq_ok.1 hok)
    rw [evaluateUntil, Traced.bind_def] at h
    split at h
    · next b hb =>
      simp only at h
      split at h
      · cases h
      · exact evaluateUntil_error hready (validateTests_eq_ok.2 hts) h
    · next e' he' =>
      cases h
      exact evaluate_error hready ht he'
end

end

theorem ready_standardWith (strict : Bool) {en enabled : List String} (h : en ⊆ enabled) :
    (standardWith strict).Ready en enabled := by
  refine ⟨h, fun _ _ => standard_tests_not_host, Comparator.asciiCasemap, ?_⟩
  exact comparator_eq_ok.2 ⟨rfl, checkEnabled_core _ _ _ _⟩

end Environment

end MailSieve
