import MailSieve.Proofs.Strictness

/-!
# Tests made of tests

`anyof` and `allof` take their tests from left to right, up to the first that decides or fails.
The rules say this once for both, by the tests before that one: all of them have the other
value. What an evaluation records of the host's tests is what the rules reach.
-/

namespace MailSieve

/-! ## Places of errors -/

namespace Traced

theorem locate_locate (x : Traced α) (p q : Position) : (x.locate p).locate q = x.locate p := by
  obtain ⟨reached, e | a⟩ := x
  · exact congrArg (fun e => Traced.mk reached (.error e)) (e.locate_locate p q)
  · rfl

theorem locate_bind (x : Traced α) (f : α → Traced β) (p : Position) :
    (x >>= f).locate p = x.locate p >>= fun a => (f a).locate p := by
  obtain ⟨reached, e | a⟩ := x <;> rfl

theorem bind_of_ok {x : Traced α} {reached : List Test} {a : α} (h : x = ⟨reached, .ok a⟩) (f : α → Traced β) :
    (x >>= f) = ⟨reached ++ (f a).reached, (f a).result⟩ := by
  rw [h]
  rfl

end Traced

theorem Test.tests_of_negated {t u : Test} (h : t.negated = .ok u) : t.tests = some [u] := by
  obtain ⟨ts, hts, h⟩ := bind_eq_ok.1 h
  have htests : t.tests = some ts := by
    unfold testList at hts
    split at hts
    · cases hts
    · split at hts
      · next heq =>
        cases hts
        exact heq
      · cases hts
  split at h
  · rw [htests, ← pure_eq_ok.1 h]
  · exact absurd h throw_ne_ok

namespace Environment

section
variable {env : Environment} {enabled : List String} {mail : Mail}

/-- An error has got its place where it arose; the tests around it add none. -/
theorem evaluate_locate (env : Environment) (enabled : List String) (mail : Mail) (t : Test) (p : Position) :
    (env.evaluate enabled mail t).locate p = env.evaluate enabled mail t := by
  rw [evaluate_eq, Traced.locate_locate]

theorem evaluateUntil_locate (env : Environment) (enabled : List String) (mail : Mail) (d : Bool) (p : Position)
    (ts : List Test) : (env.evaluateUntil enabled mail d ts).locate p = env.evaluateUntil enabled mail d ts := by
  induction ts with
  | nil => rfl
  | cons t ts ih =>
    rw [evaluateUntil, Traced.locate_bind, evaluate_locate]
    congr 1
    funext b
    by_cases hb : b = d
    · simp only [if_pos hb]
      rfl
    · simp only [if_neg hb, ih]

/-! ## Lists of tests -/

section
variable {d : Bool} {t : Test} {ts : List Test} {reached : List Test} {r : Except Error Bool}

theorem evaluateUntil_decided (h : env.evaluate enabled mail t = ⟨reached, r⟩) (hr : r ≠ .ok (!d)) :
    env.evaluateUntil enabled mail d (t :: ts) = ⟨reached, r⟩ := by
  rw [evaluateUntil, h]
  cases r with
  | error e => rfl
  | ok b =>
    have hb : b = d := by
      cases b <;> cases d <;> simp_all
    rw [Traced.bind_of_ok rfl, if_pos hb, hb]
    exact congrArg (Traced.mk · (.ok d)) (List.append_nil reached)

theorem evaluateUntil_passed (h : env.evaluate enabled mail t = ⟨reached, .ok (!d)⟩) :
    env.evaluateUntil enabled mail d (t :: ts) =
      ⟨reached ++ (env.evaluateUntil enabled mail d ts).reached, (env.evaluateUntil enabled mail d ts).result⟩ := by
  rw [evaluateUntil, Traced.bind_of_ok h, if_neg (by simp)]

/-- A single test decides by itself. -/
theorem evaluateUntil_singleton (env : Environment) (enabled : List String) (mail : Mail) (d : Bool) (t : Test) :
    env.evaluateUntil enabled mail d [t] = env.evaluate enabled mail t := by
  by_cases hr : (env.evaluate enabled mail t).result = .ok (!d)
  · have h : env.evaluate enabled mail t = ⟨(env.evaluate enabled mail t).reached, .ok (!d)⟩ := by rw [← hr]
    rw [evaluateUntil_passed h]
    conv_rhs => rw [h]
    exact congrArg (Traced.mk · (.ok (!d))) (List.append_nil _)
  · exact evaluateUntil_decided rfl hr

end

/-! ## The standard combinators -/

/-- The name of the combinator that a test with the value `d` decides. -/
def connective (d : Bool) : String :=
  if d then "anyof" else "allof"

def constantName (value : Bool) : String :=
  if value then "true" else "false"

theorem ExtendsStandard.lookup_test (hextends : env.ExtendsStandard) {name : String} {kind : TestKind}
    (h : standard.tests.get? name = some kind) : env.tests.lookup name = .ok kind :=
  Registry.lookup_eq_ok.2 (hextends.tests h)

section
variable {t : Test} {ts : List Test} {d : Bool} (hextends : env.ExtendsStandard)
include hextends

theorem evaluate_constant (hname : t.name = constantName d) (hcheck : (TestKind.constant d).check t = .ok ()) :
    env.evaluate enabled mail t = ⟨[], .ok d⟩ := by
  have hlook : env.tests.lookup t.name = .ok (.constant d) := by
    rw [hname]
    cases d <;> exact hextends.lookup_test rfl
  rw [evaluate_of_checked hlook hcheck (checkEnabled_core ..)]
  rfl

/-- `anyof` and `allof` come to what their tests come to, up to the one that decides. -/
theorem evaluate_connective (hname : t.name = connective d) (hcheck : verdict t.testList = .ok ())
    (hts : t.tests = some ts) :
    env.evaluate enabled mail t = env.evaluateUntil enabled mail d ts := by
  have hshape : liftShape (verdict t.testList) = .ok () := by rw [hcheck, liftShape]
  cases d with
  | true =>
    have hlook : env.tests.lookup t.name = .ok .anyOf := by
      rw [hname]
      exact hextends.lookup_test rfl
    rw [evaluate_of_checked hlook hshape (checkEnabled_core ..), valueOf, hts]
    exact env.evaluateUntil_locate enabled mail true t.position ts
  | false =>
    have hlook : env.tests.lookup t.name = .ok .allOf := by
      rw [hname]
      exact hextends.lookup_test rfl
    rw [evaluate_of_checked hlook hshape (checkEnabled_core ..), valueOf, hts]
    exact env.evaluateUntil_locate enabled mail false t.position ts

theorem evaluate_not {u : Test} (hname : t.name = "not") (hcheck : verdict t.negated = .ok ())
    (hts : t.tests = some [u]) :
    env.evaluate enabled mail t =
      ⟨(env.evaluate enabled mail u).reached, (env.evaluate enabled mail u).result.map (!·)⟩ := by
  have hshape : liftShape (verdict t.negated) = .ok () := by rw [hcheck, liftShape]
  have hlook : env.tests.lookup t.name = .ok .negation := by
    rw [hname]
    exact hextends.lookup_test rfl
  rw [evaluate_of_checked hlook hshape (checkEnabled_core ..), valueOf, hts, evaluateUntil?,
    evaluateUntil_singleton, Traced.locate_bind, evaluate_locate]
  obtain ⟨reached, e | b⟩ := env.evaluate enabled mail u
  · rfl
  · exact congrArg (Traced.mk · (.ok (!b))) (List.append_nil reached)

end

end

/-! ## The rules -/

mutual
/-- What a test comes to: the host's tests that are evaluated, in order, and the value or the
error. -/
inductive Yields (env : Environment) (mail : Mail) : Test → List Test → Except Error Bool → Prop
  | leaf {t test} (h : env.tests.lookup t.name = .ok (.host test)) :
      Yields env mail t [t] ((test.evaluate mail t).mapError (·.locate t.position))
  | constant {t value} (h : t.name = constantName value) : Yields env mail t [] (.ok value)
  | negated {t u reached r} (h : t.name = "not") (hts : t.tests = some [u]) (hu : Yields env mail u reached r) :
      Yields env mail t reached (r.map (!·))
  | undecided {t ts d reached} (h : t.name = connective d) (hts : t.tests = some ts)
      (hall : AllYield env mail (!d) ts reached) : Yields env mail t reached (.ok (!d))
  /-- The first test that decides or fails does so for the whole, and those after it are not
  evaluated. -/
  | decided {t before u after d passed reached r} (h : t.name = connective d)
      (hts : t.tests = some (before ++ u :: after)) (hbefore : AllYield env mail (!d) before passed)
      (hu : Yields env mail u reached r) (hr : r ≠ .ok (!d)) : Yields env mail t (passed ++ reached) r
inductive AllYield (env : Environment) (mail : Mail) : Bool → List Test → List Test → Prop
  | nil {value} : AllYield env mail value [] []
  | cons {value t ts reached reached'} (h : Yields env mail t reached (.ok value))
      (hs : AllYield env mail value ts reached') : AllYield env mail value (t :: ts) (reached ++ reached')
end

/-- The test is made of the host's tests and of constants by the standard combinators. -/
inductive Combination (env : Environment) : Test → Prop
  | leaf {t test} (h : env.tests.lookup t.name = .ok (.host test)) : Combination env t
  | constant {t value} (h : t.name = constantName value) : Combination env t
  | negation {t ts} (h : t.name = "not") (hts : t.tests = some ts) (hall : ∀ u ∈ ts, Combination env u) :
      Combination env t
  | connective {t ts d} (h : t.name = connective d) (hts : t.tests = some ts)
      (hall : ∀ u ∈ ts, Combination env u) : Combination env t

section
variable {env : Environment} {mail : Mail} {en enabled : List String}

/-! ## Rules and evaluations -/

theorem validateTest_inner {t : Test} {ts : List Test} (hok : env.validateTest en t = .ok ())
    (hts : t.tests = some ts) : ∀ u ∈ ts, env.validateTest en u = .ok () := by
  have hinner := (validateTest_eq_ok.1 hok).2
  rw [hts] at hinner
  exact validateTests_eq_ok.1 hinner

theorem check_of_validateTest (hextends : env.ExtendsStandard) {t : Test} {kind : TestKind}
    (hok : env.validateTest en t = .ok ()) (h : standard.tests.get? t.name = some kind) :
    kind.check t = .ok () := by
  obtain ⟨⟨kind', haccepts⟩, -⟩ := validateTest_eq_ok.1 hok
  cases (hextends.lookup_test h).symm.trans haccepts.lookup
  exact haccepts.shape

theorem testList_of_validateTest (hextends : env.ExtendsStandard) {t : Test} {d : Bool}
    (hok : env.validateTest en t = .ok ()) (hname : t.name = connective d) : verdict t.testList = .ok () := by
  have hcheck : TestKind.anyOf.check t = .ok () ∨ TestKind.allOf.check t = .ok () := by
    cases d with
    | true => exact .inl (check_of_validateTest hextends hok (by rw [hname]; rfl))
    | false => exact .inr (check_of_validateTest hextends hok (by rw [hname]; rfl))
  rcases hcheck with h | h <;> exact liftShape_eq_ok.1 h

theorem negated_of_validateTest (hextends : env.ExtendsStandard) {t : Test} (hok : env.validateTest en t = .ok ())
    (hname : t.name = "not") : verdict t.negated = .ok () := by
  have hcheck : TestKind.negation.check t = .ok () := check_of_validateTest hextends hok (by rw [hname]; rfl)
  exact liftShape_eq_ok.1 hcheck

theorem evaluate_leaf {t : Test} {test : HostTest} (hlook : env.tests.lookup t.name = .ok (.host test))
    (hok : env.validateTest en t = .ok ()) (hen : en ⊆ enabled) :
    env.evaluate enabled mail t = ⟨[t], (test.evaluate mail t).mapError (·.locate t.position)⟩ := by
  obtain ⟨⟨kind, haccepts⟩, -⟩ := validateTest_eq_ok.1 hok
  cases hlook.symm.trans haccepts.lookup
  rw [evaluate_of_checked hlook haccepts.shape (checkEnabled_mono hen haccepts.enabled)]
  rfl

mutual
/-- An accepted test is evaluated by the rules. -/
theorem Yields.evaluate (hextends : env.ExtendsStandard) (hen : en ⊆ enabled) {t : Test} {reached : List Test}
    {r : Except Error Bool} (h : Yields env mail t reached r) (hok : env.validateTest en t = .ok ()) :
    env.evaluate enabled mail t = ⟨reached, r⟩ := by
  match h with
  | .leaf hlook => exact evaluate_leaf hlook hok hen
  | @Yields.constant _ _ _ value hname =>
    have hcheck : (TestKind.constant value).check t = .ok () := by
      apply check_of_validateTest hextends hok
      rw [hname]
      cases value <;> rfl
    exact evaluate_constant hextends hname hcheck
  | .negated hname hts hu =>
    have hinner := hu.evaluate hextends hen (validateTest_inner hok hts _ List.mem_cons_self)
    rw [evaluate_not hextends hname (negated_of_validateTest hextends hok hname) hts, hinner]
  | @Yields.undecided _ _ _ ts d _ hname hts hall =>
    -- no test is left when all have passed
    have hinner := hall.evaluateUntil hextends hen (validateTest_inner hok hts) []
    rw [List.append_nil, Bool.not_not] at hinner
    rw [evaluate_connective hextends hname (testList_of_validateTest hextends hok hname) hts, hinner]
    exact congrArg (Traced.mk · (.ok (!d))) (List.append_nil _)
  | @Yields.decided _ _ _ _ u _ _ _ _ _ hname hts hbefore hu hr =>
    have hvalid := List.forall_mem_append.1 (validateTest_inner hok hts)
    have hlast := hu.evaluate hextends hen (hvalid.2 u List.mem_cons_self)
    have hinner := hbefore.evaluateUntil hextends hen hvalid.1
    rw [Bool.not_not] at hinner
    rw [evaluate_connective hextends hname (testList_of_validateTest hextends hok hname) hts, hinner,
      evaluateUntil_decided hlast hr]

theorem AllYield.evaluateUntil (hextends : env.ExtendsStandard) (hen : en ⊆ enabled) {value : Bool}
    {ts reached : List Test} (h : AllYield env mail value ts reached)
    (hok : ∀ u ∈ ts, env.validateTest en u = .ok ()) (rest : List Test) :
    env.evaluateUntil enabled mail (!value) (ts ++ rest) =
      ⟨reached ++ (env.evaluateUntil enabled mail (!value) rest).reached,
        (env.evaluateUntil enabled mail (!value) rest).result⟩ := by
  match h with
  | .nil => rfl
  | .cons hfirst hs =>
    obtain ⟨ht, hts⟩ := List.forall_mem_cons.1 hok
    have hvalue := hfirst.evaluate hextends hen ht
    rw [← Bool.not_not value] at hvalue
    rw [List.cons_append, evaluateUntil_passed hvalue, hs.evaluateUntil hextends hen hts rest, List.append_assoc]
end

/-! ## The rules apply -/

/-- Among tests that come to something, none decides, or a first one does. -/
theorem exists_decision (value : Bool) : ∀ {ts : List Test}, (∀ u ∈ ts, ∃ reached r, Yields env mail u reached r) →
    (∃ reached, AllYield env mail value ts reached) ∨
      ∃ before u after passed reached r, ts = before ++ u :: after ∧ AllYield env mail value before passed ∧
        Yields env mail u reached r ∧ r ≠ .ok value
  | [], _ => .inl ⟨[], .nil⟩
  | t :: ts, h => by
    obtain ⟨⟨reached, r, ht⟩, hts⟩ := List.forall_mem_cons.1 h
    by_cases hr : r = .ok value
    · subst hr
      rcases exists_decision value hts with
        ⟨passed, hall⟩ | ⟨before, u, after, passed, reached', r, rfl, hall, hu, hr⟩
      · exact .inl ⟨_, .cons ht hall⟩
      · exact .inr ⟨t :: before, u, after, _, reached', r, rfl, .cons ht hall, hu, hr⟩
    · exact .inr ⟨[], t, ts, [], reached, r, rfl, .nil, ht, hr⟩

theorem Combination.exists_yields (hextends : env.ExtendsStandard) (mail : Mail) {t : Test}
    (h : Combination env t) :
    env.validateTest en t = .ok () → ∃ reached r, Yields env mail t reached r := by
  induction h with
  | leaf hlook => exact fun _ => ⟨_, _, .leaf hlook⟩
  | constant hname => exact fun _ => ⟨_, _, .constant hname⟩
  | @negation t ts hname hts _ ih =>
    intro hok
    obtain ⟨u, hu⟩ := verdict_eq_ok.1 (negated_of_validateTest hextends hok hname)
    cases hts.symm.trans (Test.tests_of_negated hu)
    obtain ⟨reached, r, hr⟩ := ih u List.mem_cons_self (validateTest_inner hok hts u List.mem_cons_self)
    exact ⟨_, _, .negated hname hts hr⟩
  | @connective t ts d hname hts _ ih =>
    intro hok
    have hall := fun u hu => ih u hu (validateTest_inner hok hts u hu)
    rcases exists_decision (!d) hall with ⟨reached, hpassed⟩ | ⟨before, u, after, _, _, _, rfl, hpassed, hu, hr⟩
    · exact ⟨_, _, .undecided hname hts hpassed⟩
    · exact ⟨_, _, .decided hname hts hpassed hu hr⟩

/-! ## What is evaluated -/

def isHost (env : Environment) (t : Test) : Bool :=
  match env.tests.get? t.name with
  | some (.host _) => true
  | _ => false

theorem isHost_of_lookup {t : Test} {test : HostTest} (h : env.tests.lookup t.name = .ok (.host test)) :
    env.isHost t = true := by
  rw [isHost, Registry.lookup_eq_ok.1 h]

def leaves (env : Environment) (t : Test) : List Test :=
  t.preorder.filter env.isHost

theorem inner_sublist_leaves (env : Environment) {t : Test} {ts : List Test} (hts : t.tests = some ts) :
    (ts.flatMap env.leaves).Sublist (env.leaves t) := by
  have hinner : ∀ us : List Test, us.flatMap env.leaves = (Test.preorderAll us).filter env.isHost := by
    intro us
    induction us with
    | nil => rfl
    | cons u us ih => rw [List.flatMap_cons, ih, Test.preorderAll, List.filter_append, leaves]
  rw [hinner, leaves, Test.preorder_eq, hts]
  exact (List.sublist_cons_self _ _).filter _

mutual
/-- No leaf is evaluated twice, and none out of order. -/
theorem Yields.sublist {t : Test} {reached : List Test} {r : Except Error Bool} (h : Yields env mail t reached r) :
    reached.Sublist (env.leaves t) := by
  match h with
  | .leaf hlook =>
    rw [leaves, Test.preorder_eq, List.filter_cons_of_pos (isHost_of_lookup hlook)]
    exact (List.nil_sublist _).cons_cons _
  | .constant _ => exact List.nil_sublist _
  | .negated _ hts hu =>
    have hinner := env.inner_sublist_leaves hts
    rw [List.flatMap_singleton] at hinner
    exact hu.sublist.trans hinner
  | .undecided _ hts hall => exact hall.sublist.trans (env.inner_sublist_leaves hts)
  | .decided _ hts hbefore hu _ =>
    have hinner := env.inner_sublist_leaves hts
    rw [List.flatMap_append, List.flatMap_cons] at hinner
    refine List.Sublist.trans (hbefore.sublist.append ?_) hinner
    exact hu.sublist.trans (List.sublist_append_left _ _)

theorem AllYield.sublist {value : Bool} {ts reached : List Test} (h : AllYield env mail value ts reached) :
    reached.Sublist (ts.flatMap env.leaves) := by
  match h with
  | .nil => exact .slnil
  | .cons hfirst hs =>
    rw [List.flatMap_cons]
    exact hfirst.sublist.append hs.sublist
end

end

/-- In any extension of the standard environment, an accepted test made of the host's tests is
evaluated by the rules and in no other way: its value or error and the host's tests evaluated
for it are those that the rules give, so each of these is evaluated once at most, in source
order, and none after the one that decides. -/
theorem evaluate_iff_yields (env : Environment) (hextends : env.ExtendsStandard) {en enabled : List String}
    (hen : en ⊆ enabled) {t : Test} (hcombination : Combination env t) (hok : env.validateTest en t = .ok ())
    (mail : Mail) :
    (∀ reached r, env.evaluate enabled mail t = ⟨reached, r⟩ ↔ Yields env mail t reached r) ∧
      (env.evaluate enabled mail t).reached.Sublist (env.leaves t) := by
  obtain ⟨reached, r, hyields⟩ := hcombination.exists_yields hextends mail hok
  have heval := hyields.evaluate hextends hen hok
  refine ⟨?_, ?_⟩
  · intro reached' r'
    constructor
    · intro h
      cases heval.symm.trans h
      exact hyields
    · intro h
      exact h.evaluate hextends hen hok
  · rw [heval]
    exact hyields.sublist

def broken : HostTest where
  check _ := .ok ()
  evaluate _ _ := .error (.command (.host "out of order") none)
  isExtension := false

def probed : Environment :=
  { standard with
    tests := (standard.tests.insert "bulky" (.host bulky)).insert "broken" (.host broken)
    enforceRequire := true }

theorem extendsStandard_probed : probed.ExtendsStandard where
  commands := rfl
  comparators := id
  tests := by
    intro name kind h
    show ((standard.tests.insert _ _).insert _ _).get? name = _
    rw [Registry.get?_insert, Registry.get?_insert, if_neg, if_neg, h]
    · rintro rfl
      cases h
    · rintro rfl
      cases h

/-- `anyof (allof (not bulky, bulky), not allof (true, bulky), broken, bulky)` -/
def nestedProbes : Test :=
  ⟨"anyof", [], some [
    ⟨"allof", [], some [⟨"not", [], some [⟨"bulky", [], none, ⟨1, 19⟩⟩], ⟨1, 15⟩⟩, ⟨"bulky", [], none, ⟨1, 26⟩⟩],
      ⟨1, 8⟩⟩,
    ⟨"not", [], some [⟨"allof", [], some [⟨"true", [], none, ⟨2, 12⟩⟩, ⟨"bulky", [], none, ⟨2, 18⟩⟩], ⟨2, 5⟩⟩],
      ⟨2, 1⟩⟩,
    ⟨"broken", [], none, ⟨3, 1⟩⟩,
    ⟨"bulky", [], none, ⟨4, 1⟩⟩], ⟨1, 1⟩⟩

theorem combination_nestedProbes : Combination probed nestedProbes := by
  have hbulky : ∀ p, Combination probed ⟨"bulky", [], none, p⟩ := fun p => .leaf rfl
  have hbroken : ∀ p, Combination probed ⟨"broken", [], none, p⟩ := fun p => .leaf rfl
  have htrue : ∀ p, Combination probed ⟨"true", [], none, p⟩ :=
    fun p => .constant (show "true" = constantName true from rfl)
  have hnot : ∀ u p, Combination probed u → Combination probed ⟨"not", [], some [u], p⟩ := by
    intro u p hu
    exact .negation rfl rfl (List.forall_mem_singleton.2 hu)
  have hboth : ∀ u v p, Combination probed u → Combination probed v →
      Combination probed ⟨"allof", [], some [u, v], p⟩ := by
    intro u v p hu hv
    exact .connective (show "allof" = connective false from rfl) rfl (by simp [hu, hv])
  refine .connective (show "anyof" = connective true from rfl) rfl ?_
  simp [hbulky, hbroken, htrue, hnot, hboth]

/-- The first two tests are false, one of them by its first part alone. The third one fails. -/
theorem evaluate_iff_yields_nestedProbes :
    probed.ExtendsStandard ∧ ["bulky"] ⊆ ["reject", "bulky"] ∧ Combination probed nestedProbes ∧
      probed.validateTest ["bulky"] nestedProbes = .ok () ∧
      Yields probed { plainMail with size := .ok 2000 } nestedProbes
        [⟨"bulky", [], none, ⟨1, 19⟩⟩, ⟨"bulky", [], none, ⟨2, 18⟩⟩, ⟨"broken", [], none, ⟨3, 1⟩⟩]
        (.error (.command (.host "out of order") (some ⟨3, 1⟩))) := by
  have hen : ["bulky"] ⊆ ["reject", "bulky"] := by simp
  have hok : probed.validateTest ["bulky"] nestedProbes = .ok () := by rfl
  have hiff := evaluate_iff_yields probed extendsStandard_probed hen combination_nestedProbes hok
    { plainMail with size := .ok 2000 }
  exact ⟨extendsStandard_probed, hen, combination_nestedProbes, hok, (hiff.1 _ _).1 rfl⟩

end Environment

end MailSieve
