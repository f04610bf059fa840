import MailSieve.Proofs.Agreement

/-!
# What a script reads of a message

Under the standard names a test asks the message about the names in the first of its string
lists, or for its size. So two messages that give the same answers, be they values or errors,
to the questions that stand in a script are the same to it, whatever else is in them.
-/

namespace MailSieve

/-! ## The questions of a test -/

/-- The string lists among arguments, without the name that follows a comparator tag. -/
def operandLists : List Argument → List (List String)
  | .tag tag :: .strings items :: rest =>
    if tag = comparatorTag then operandLists rest else items :: operandLists rest
  | .strings items :: rest => items :: operandLists rest
  | _ :: rest => operandLists rest
  | [] => []

/-- The first string list of a test: the headers, the parts of the envelope or the phrases that
it is about. -/
def Test.subjects (t : Test) : List String :=
  (operandLists t.arguments).headD []

/-- The messages answer alike what the test asks for by its name. -/
structure Mail.AgreeOn (t : Test) (mail mail' : Mail) : Prop where
  header : t.name = "header" ∨ t.name = "address" ∨ t.name = "exists" →
    ∀ name ∈ t.subjects, mail.header name = mail'.header name
  envelope : t.name = "envelope" → ∀ part ∈ t.subjects, mail.envelope part = mail'.envelope part
  body : t.name = "body" → ∀ phrase ∈ t.subjects, mail.bodyContains phrase = mail'.bodyContains phrase
  size : t.name = "size" → mail.size = mail'.size

namespace Comparison

theorem operandLists_tag {tag : String} (h : tag ≠ comparatorTag) (rest : List Argument) :
    operandLists (.tag tag :: rest) = operandLists rest := by
  cases rest with
  | nil => rfl
  | cons a rest =>
    cases a with
    | strings items => simp only [operandLists, if_neg h]
    | _ => rfl

theorem read_lists {name : String} {takesPart : Bool} {tags tags' : ComparisonTags}
    {lists lists' : List (List String)} {args : List Argument}
    (h : read name takesPart tags lists args = .ok (tags', lists')) : lists' = lists ++ operandLists args := by
  fun_induction read name takesPart tags lists args with
  | case1 => cases h; simp [operandLists]
  | case2 tags lists items rest ih => rw [ih h, List.append_assoc]; rfl
  | case3 => cases h
  | case4 => cases h
  | case5 tags lists comparator rest _ ih =>
    obtain ⟨filled, -, h⟩ := bind_eq_ok.1 h
    rw [ih _ h, operandLists, if_pos rfl]
  | case6 => cases h
  | case7 tags lists tag rest _ htag ih =>
    obtain ⟨tags₁, -, h⟩ := bind_eq_ok.1 h
    rw [ih _ h, operandLists_tag htag]

theorem ofTest_operands {t : Test} {takesPart : Bool} {n : Nat} {args : Comparison}
    (h : ofTest t takesPart n = .ok args) :
    args.operands = operandLists t.arguments ∧ args.operands.length = n := by
  obtain ⟨-, tags, lists, hread, hlength, rfl⟩ := ofTest_eq_ok.1 h
  rw [← List.nil_append (operandLists t.arguments), ← read_lists hread]
  exact ⟨rfl, hlength⟩

end Comparison

theorem Test.subjects_of_presentNames {t : Test} {names : List String} (h : t.presentNames = .ok names) :
    t.subjects = names := by
  unfold presentNames at h
  split at h
  · next hargs _ =>
    cases h
    simp [subjects, hargs, operandLists]
  · cases h

theorem Test.subjects_of_bodyKeys {t : Test} {keys : List String} (h : t.bodyKeys = .ok keys) :
    t.subjects = keys := by
  obtain ⟨args, hargs, h⟩ := bind_eq_ok.1 h
  obtain ⟨hoperands, hlength⟩ := Comparison.ofTest_operands hargs
  obtain ⟨items, hitems⟩ := List.length_eq_one_iff.1 hlength
  by_cases hmatch : args.matchType = .contains
  · simp only [hmatch, ne_eq, not_true_eq_false, if_false, pure_eq_ok, hitems] at h
    rw [subjects, ← hoperands, hitems, ← h]
    simp
  · simp only [hmatch, ne_eq, not_false_eq_true, if_true] at h
    exact absurd h throw_ne_ok

/-! ## Reading -/

theorem anyRead_congr {read read' : String → Except MailError α} {found : α → Bool} {names : List String}
    (h : ∀ name ∈ names, read name = read' name) : anyRead read found names = anyRead read' found names := by
  induction names with
  | nil => rfl
  | cons name names ih =>
    rw [List.forall_mem_cons] at h
    unfold anyRead
    rw [h.1, ih h.2]

theorem allRead_congr {read read' : String → Except MailError α} {found : α → Bool} {names : List String}
    (h : ∀ name ∈ names, read name = read' name) : allRead read found names = allRead read' found names := by
  induction names with
  | nil => rfl
  | cons name names ih =>
    rw [List.forall_mem_cons] at h
    unfold allRead
    rw [h.1, ih h.2]

namespace Environment

section
variable {env : Environment} {mail mail' : Mail} {enabled : List String}

theorem compareRead_congr {t : Test} {takesPart : Bool} {read read' : String → Except MailError (List String)}
    {parts : AddressPart → String → List String} (h : ∀ name ∈ t.subjects, read name = read' name) :
    env.compareRead enabled t takesPart read parts = env.compareRead enabled t takesPart read' parts := by
  unfold compareRead
  cases hargs : Comparison.ofTest t takesPart 2 with
  | error fault => rfl
  | ok args =>
    obtain ⟨hoperands, hlength⟩ := Comparison.ofTest_operands hargs
    obtain ⟨names, keys, hlists⟩ := List.length_eq_two.1 hlength
    have hnames : t.subjects = names := by
      rw [Test.subjects, ← hoperands, hlists]
      rfl
    rw [hnames] at h
    simp only [liftShape, ok_bind, hlists, anyRead_congr h]

/-- Under the standard names, what a test is worth by itself comes from what it asks for. -/
theorem leafValue_congr {t : Test} {kind : TestKind} (hkind : (t.name, kind) ∈ TestKind.all)
    (h : Mail.AgreeOn t mail mail') : env.leafValue enabled mail kind t = env.leafValue enabled mail' kind t := by
  cases kind with
  | header =>
    have hname : t.name = "header" := by simpa [TestKind.all] using hkind
    unfold leafValue
    exact compareRead_congr (h.header (.inl hname))
  | address =>
    have hname : t.name = "address" := by simpa [TestKind.all] using hkind
    unfold leafValue
    exact compareRead_congr (h.header (.inr (.inl hname)))
  | envelope =>
    have hname : t.name = "envelope" := by simpa [TestKind.all] using hkind
    unfold leafValue
    exact compareRead_congr (h.envelope hname)
  | present =>
    have hname : t.name = "exists" := by simpa [TestKind.all] using hkind
    simp only [leafValue]
    cases hnames : t.presentNames with
    | error fault => rfl
    | ok names =>
      have hread := h.header (.inr (.inr hname))
      rw [Test.subjects_of_presentNames hnames] at hread
      simp only [liftShape, ok_bind, allRead_congr hread]
  | size =>
    have hname : t.name = "size" := by simpa [TestKind.all] using hkind
    simp only [leafValue, h.size hname]
  | body =>
    have hname : t.name = "body" := by simpa [TestKind.all] using hkind
    simp only [leafValue]
    cases hkeys : t.bodyKeys with
    | error fault => rfl
    | ok keys =>
      have hread := h.body hname
      rw [Test.subjects_of_bodyKeys hkeys] at hread
      simp only [liftShape, ok_bind, anyRead_congr hread]
  | host test => simp [TestKind.all] at hkind
  | constant value => rfl
  | anyOf | allOf | negation => rfl

end

/-! ## Scripts -/

section
variable {strict : Bool} {mail mail' : Mail}

theorem evaluate_congr_mail {enabled : List String} {t : Test} (h : ∀ u ∈ t.preorder, Mail.AgreeOn u mail mail') :
    (standardWith strict).evaluate enabled mail t = (standardWith strict).evaluate enabled mail' t := by
  apply evaluate_congr
  intro u hu
  exact ⟨rfl, fun _ => rfl, fun hlook => leafValue_congr (standard_tests_lookup_mem hlook) (h u hu)⟩

mutual
theorem runCommand_congr_mail : ∀ {c : Command} {ctx : Context},
    (∀ d ∈ c.preorder, ∀ t ∈ Test.preorder? d.tests, Mail.AgreeOn t mail mail') →
    (standardWith strict).runCommand mail c ctx = (standardWith strict).runCommand mail' c ctx
  | ⟨name, arguments, tests, block, position⟩, ctx, h => by
    rw [Command.preorder_eq, List.forall_mem_cons] at h
    obtain ⟨hown, hinner⟩ := h
    apply runCommand_congr
    · rfl
    · intro kind _
      rfl
    · intro kind _
      apply perform_congr
      · intro names
        rfl
      · intro t body hc
        have ht : tests = some [t] := (Command.conditional_eq_ok.1 hc).2.2
        subst ht
        apply evaluate_congr_mail
        intro u hu
        exact hown u (by simpa [Test.preorder?, Test.preorderAll] using hu)
      · exact runBlock?_congr_mail hinner

theorem runBlock?_congr_mail : ∀ {block : Option (List Command)} {ctx : Context},
    (∀ d ∈ Script.blockPreorder block, ∀ t ∈ Test.preorder? d.tests, Mail.AgreeOn t mail mail') →
    (standardWith strict).runBlock? mail block ctx = (standardWith strict).runBlock? mail' block ctx
  | none, _, _ => by rw [runBlock?, runBlock?]
  | some _, _, h => by
    rw [runBlock?, runBlock?]
    exact runCommands_congr_mail h

theorem runCommands_congr_mail : ∀ {cs : List Command} {ctx : Context},
    (∀ d ∈ Script.preorder cs, ∀ t ∈ Test.preorder? d.tests, Mail.AgreeOn t mail mail') →
    (standardWith strict).runCommands mail cs ctx = (standardWith strict).runCommands mail' cs ctx
  | [], _, _ => by rw [runCommands, runCommands]
  | c :: cs, ctx, h => by
    rw [Script.preorder, List.forall_mem_append] at h
    apply runCommands_cons_congr (runCommand_congr_mail h.1)
    intro _
    exact runCommands_congr_mail h.2
end

end

/-- A script sees of a message what its tests name and nothing else: messages that answer these
questions alike are run to the same actions and the same end or error, whether extensions have
to be required or not. -/
theorem execute_congr_mail (strict : Bool) (script : Script) (mail mail' : Mail)
    (h : ∀ t ∈ Script.tests script, Mail.AgreeOn t mail mail') :
    (standardWith strict).execute script mail = (standardWith strict).execute script mail' := by
  have hasked : ∀ c ∈ Script.preorder script, ∀ t ∈ Test.preorder? c.tests, Mail.AgreeOn t mail mail' := by
    intro c hc t ht
    exact h t (List.mem_flatMap.2 ⟨c, hc, ht⟩)
  unfold execute
  rw [runCommands_congr_mail hasked]

def asksTwice : Script := [
  ⟨"require", [.strings ["body"]], none, none, ⟨1, 1⟩⟩,
  ⟨"if", [], some [⟨"anyof", [], some [
      ⟨"header", [.tag ":is", .strings ["Subject"], .strings ["hello"]], none, ⟨2, 11⟩⟩,
      ⟨"body", [.tag ":contains", .strings ["money"]], none, ⟨2, 40⟩⟩],
      ⟨2, 4⟩⟩],
    some [⟨"discard", [], none, none, ⟨2, 70⟩⟩], ⟨2, 1⟩⟩]

def letter : Mail where
  header name := .ok (if name = "Subject" then ["news"] else [])
  headerNames := .ok ["Subject"]
  size := .ok 40
  envelope _ := .error (.unsupported "envelope")
  bodyContains _ := .error (.io "lost")

def forwarded : Mail where
  header name := .ok (if name = "Subject" then ["news"] else if name = "To" then ["b@example.org"] else [])
  headerNames := .ok ["Subject", "To"]
  size := .error (.malformed "no end")
  envelope _ := .ok ["b@example.org"]
  bodyContains phrase := if phrase = "money" then .error (.io "lost") else .ok true

theorem execute_congr_mail_forwarded :
    (∀ t ∈ Script.tests asksTwice, Mail.AgreeOn t letter forwarded) ∧
      letter.header "To" ≠ forwarded.header "To" ∧
      ((standardWith true).execute asksTwice forwarded).result = .error (.mail (.io "lost")) ∧
      (standardWith true).execute asksTwice letter = (standardWith true).execute asksTwice forwarded := by
  have hagree : ∀ t ∈ Script.tests asksTwice, Mail.AgreeOn t letter forwarded := by
    intro t ht
    simp only [asksTwice, Script.tests, Script.preorder, Command.preorder, Script.blockPreorder, Test.preorder?,
      Test.preorderAll, Test.preorder, List.flatMap_cons, List.flatMap_nil, List.append_nil, List.nil_append,
      List.cons_append, List.mem_cons, List.not_mem_nil, or_false] at ht
    rcases ht with rfl | rfl | rfl <;> constructor <;>
      simp [Test.subjects, operandLists, comparatorTag, letter, forwarded]
  exact ⟨hagree, by simp [letter, forwarded], by rfl, execute_congr_mail true asksTwice letter forwarded hagree⟩

end Environment

end MailSieve
