import MailSieve.Proofs.Combinators

/-!
# Lists of operands

A test over a list of names reads the mail for one name after the other, as `anyof` or `allof`
goes through tests, and it has made the same checks before it reads for the first one. So it
comes to what the combinator makes of one test for each name, errors included. If the mail can
be read, only the members of its lists count.
-/

namespace MailSieve

/-! ## The arguments of a comparison -/

namespace Comparison

section
variable {name : String} {takesPart : Bool} {tags tags' : ComparisonTags} {lists lists' : List (List String)}
  {args : List Argument}

theorem read_strings (name : String) (takesPart : Bool) (tags : ComparisonTags) :
    ∀ lists more : List (List String),
      read name takesPart tags lists (more.map .strings) = .ok (tags, lists ++ more)
  | lists, [] => by rw [List.append_nil]; rfl
  | lists, items :: more => by
    rw [List.map_cons, read, read_strings name takesPart tags (lists ++ [items]) more, List.append_assoc]
    rfl

/-- After a string list, string lists alone can follow. -/
theorem read_late (hlists : lists ≠ []) (h : read name takesPart tags lists args = .ok (tags', lists')) :
    ∃ more, args = more.map .strings ∧ tags' = tags ∧ lists' = lists ++ more := by
  induction args generalizing lists with
  | nil =>
    cases h
    exact ⟨[], rfl, rfl, (List.append_nil _).symm⟩
  | cons a args ih =>
    cases a with
    | strings items =>
      obtain ⟨more, rfl, rfl, rfl⟩ := ih (by simp) h
      exact ⟨items :: more, rfl, rfl, by rw [List.append_assoc]; rfl⟩
    | number n => cases h
    | tag tag =>
      rw [read.eq_def] at h
      simp only [if_pos hlists] at h
      cases h

/-- The arguments are tags and then string lists, which can be exchanged for others. -/
theorem read_eq_ok_split (h : read name takesPart tags lists args = .ok (tags', lists')) (hlists : lists = []) :
    ∃ front, args = front ++ lists'.map .strings ∧
      ∀ more, read name takesPart tags [] (front ++ more.map .strings) = .ok (tags', more) := by
  fun_induction read name takesPart tags lists args with
  | case1 tags lists =>
    subst hlists
    cases h
    exact ⟨[], rfl, read_strings name takesPart _ []⟩
  | case2 tags lists items rest ih =>
    subst hlists
    obtain ⟨more, rfl, rfl, rfl⟩ := read_late (List.cons_ne_nil _ _) h
    exact ⟨[], rfl, read_strings name takesPart _ []⟩
  | case3 => cases h
  | case4 => cases h
  | case5 tags lists _ comparator rest ih =>
    -- the name of a comparator is a string list too, but belongs to the tags
    obtain ⟨filled, hfill, h⟩ := bind_eq_ok.1 h
    obtain ⟨front, rfl, hfront⟩ := ih filled h hlists
    refine ⟨.tag comparatorTag :: .strings [comparator] :: front, rfl, ?_⟩
    intro more
    simp only [List.cons_append, read, hfill, ok_bind, hfront more]
    rfl
  | case6 => cases h
  | case7 tags lists tag rest _ htag ih =>
    obtain ⟨tags₁, hadd, h⟩ := bind_eq_ok.1 h
    obtain ⟨front, rfl, hfront⟩ := ih tags₁ h hlists
    refine ⟨.tag tag :: front, rfl, ?_⟩
    intro more
    rw [List.cons_append, read.eq_def]
    simp only [if_neg htag, hadd, ok_bind, hfront more]
    rfl

end

end Comparison

def Test.withLists (t : Test) (tags : List Argument) (lists : List (List String)) : Test :=
  { t with arguments := tags ++ lists.map .strings }

theorem Test.eq_withLists {t : Test} {tags : List Argument} {lists : List (List String)}
    (h : t.arguments = tags ++ lists.map .strings) : t = t.withLists tags lists := by
  obtain ⟨name, arguments, tests, position⟩ := t
  cases h
  rfl

theorem Comparison.ofTest_split {t : Test} {takesPart : Bool} {n : Nat} {args : Comparison}
    (h : ofTest t takesPart n = .ok args) :
    ∃ tags, t = t.withLists tags args.operands ∧ args.operands.length = n ∧ ∀ lists, lists.length = n →
      ofTest (t.withLists tags lists) takesPart n = .ok { args with operands := lists } := by
  obtain ⟨hplain, tags, lists, hread, hn, rfl⟩ := ofTest_eq_ok.1 h
  obtain ⟨front, hargs, hfront⟩ := read_eq_ok_split hread rfl
  refine ⟨front, Test.eq_withLists hargs, hn, ?_⟩
  intro more hmore
  exact ofTest_eq_ok.2 ⟨hplain, tags, more, hfront more, hmore, rfl⟩

theorem Test.bodyKeys_split {t : Test} {keys : List String} (h : t.bodyKeys = .ok keys) :
    ∃ tags, t = t.withLists tags [keys] ∧ ∀ keys', (t.withLists tags [keys']).bodyKeys = .ok keys' := by
  obtain ⟨args, hargs, h⟩ := bind_eq_ok.1 h
  obtain ⟨tags, ht, hlength, hlists⟩ := Comparison.ofTest_split hargs
  obtain ⟨items, hitems⟩ := List.length_eq_one_iff.1 hlength
  by_cases hmatch : args.matchType = .contains
  · simp only [hmatch, ne_eq, not_true_eq_false, if_false, pure_eq_ok, hitems] at h
    rw [List.flatten_cons, List.flatten_nil, List.append_nil] at h
    subst h
    refine ⟨tags, hitems ▸ ht, ?_⟩
    intro keys'
    simp only [bodyKeys, hlists [keys'] rfl, ok_bind, hmatch, ne_eq, not_true_eq_false, if_false]
    exact congrArg Except.ok (List.append_nil keys')
  · simp only [hmatch, ne_eq, not_false_eq_true, if_true] at h
    exact absurd h throw_ne_ok

theorem Test.presentNames_split {t : Test} {names : List String} (h : t.presentNames = .ok names) :
    t = t.withLists [] [names] ∧ ∀ names', (t.withLists [] [names']).presentNames = .ok names' := by
  unfold presentNames at h
  split at h
  · next hargs htests =>
    cases h
    refine ⟨?_, ?_⟩
    · exact eq_withLists hargs
    · intro names'
      simp only [presentNames, withLists, htests, List.nil_append, List.map_cons, List.map_nil]
  · cases h

/-! ## Reading for one name after the other -/

/-- Reads for one name after the other until what is found is decisive. -/
def readUntil (d : Bool) (read : String → Except MailError α) (found : α → Bool) : List String → Except Error Bool
  | [] => .ok (!d)
  | name :: names =>
    match read name with
    | .error e => .error (.mail e)
    | .ok values => if found values = d then .ok d else readUntil d read found names

section
variable {d : Bool} {read : String → Except MailError α} {found : α → Bool}

theorem anyRead_eq (names : List String) : anyRead read found names = readUntil true read found names := by
  induction names with
  | nil => rfl
  | cons name names ih =>
    cases hname : read name with
    | error e => simp only [anyRead, readUntil, hname]
    | ok values => simp only [anyRead, readUntil, hname, ih]

theorem allRead_eq (names : List String) : allRead read found names = readUntil false read found names := by
  induction names with
  | nil => rfl
  | cons name names ih =>
    cases hname : read name with
    | error e => simp only [allRead, readUntil, hname]
    | ok values => cases hfound : found values <;> simp [allRead, readUntil, hname, hfound, ih]

theorem readUntil_locate (p : Position) (names : List String) :
    (readUntil d read found names).mapError (·.locate p) = readUntil d read found names := by
  induction names with
  | nil => rfl
  | cons name names ih =>
    unfold readUntil
    split
    · rfl
    · split
      · rfl
      · exact ih

def decidesRead (d : Bool) (read : String → Except MailError α) (found : α → Bool) (name : String) : Bool :=
  match read name with
  | .ok values => found values == d
  | .error _ => false

/-- If all can be read, it comes down to whether some name decides. -/
theorem readUntil_of_reads (hread : ∀ name e, read name ≠ .error e) (names : List String) :
    readUntil d read found names = .ok (if names.any (decidesRead d read found) then d else !d) := by
  induction names with
  | nil => rfl
  | cons name names ih =>
    cases hname : read name with
    | error e => exact absurd hname (hread name e)
    | ok values =>
      by_cases hfound : found values = d
      · simp [readUntil, decidesRead, hname, hfound]
      · simp [readUntil, decidesRead, hname, hfound, ih]

end

/-- The lists hold the same strings, in whatever order and however often. -/
def SameMembers (xs ys : List String) : Prop :=
  ∀ x, x ∈ xs ↔ x ∈ ys

theorem SameMembers.any_eq {xs ys : List String} (h : SameMembers xs ys) (p : String → Bool) :
    xs.any p = ys.any p := by
  rw [Bool.eq_iff_iff, List.any_eq_true, List.any_eq_true]
  constructor
  · intro hx
    obtain ⟨x, hx, hp⟩ := hx
    exact ⟨x, (h x).1 hx, hp⟩
  · intro hy
    obtain ⟨y, hy, hp⟩ := hy
    exact ⟨y, (h y).2 hy, hp⟩

theorem readUntil_sameMembers {d : Bool} {read : String → Except MailError α} {found : α → Bool}
    (hread : ∀ name e, read name ≠ .error e) {names names' : List String} (h : SameMembers names names') :
    readUntil d read found names = readUntil d read found names' := by
  rw [readUntil_of_reads hread, readUntil_of_reads hread, h.any_eq]

theorem MatchType.any_sameMembers {keys keys' : List String} (h : SameMembers keys keys') (m : MatchType)
    (comparator : Comparator) (values : List String) :
    m.any comparator values keys = m.any comparator values keys' := by
  unfold MatchType.any
  simp only [h.any_eq]

/-! ## One test for each name -/

namespace Environment

section
variable {env : Environment} {enabled : List String} {mail : Mail} {α β : Type}

/-- What a family of tests comes to, one for each list of names: after checks that all of them
share, the mail is read for the names. -/
def Searches (env : Environment) (enabled : List String) (mail : Mail) (d : Bool) (gate : Except Error β)
    (read : String → Except MailError α) (found : β → α → Bool) (test : List String → Test) : Prop :=
  ∀ names, env.evaluate enabled mail (test names) =
    Traced.ofExcept (gate >>= fun b => readUntil d read (found b) names)

variable {d : Bool} {gate : Except Error β} {read : String → Except MailError α} {found : β → α → Bool}
  {test : List String → Test}

theorem Searches.evaluateUntil (h : Searches env enabled mail d gate read found test) {names : List String}
    (hnames : names ≠ []) :
    env.evaluateUntil enabled mail d (names.map fun name => test [name]) =
      env.evaluate enabled mail (test names) := by
  rw [h names]
  cases gate with
  | error e =>
    -- the first test fails in the checks, as the whole does
    obtain ⟨name, rest, rfl⟩ := List.exists_cons_of_ne_nil hnames
    exact evaluateUntil_decided (h [name]) (by simp [bind, Except.bind])
  | ok b =>
    have hread : ∀ names, env.evaluate enabled mail (test names) =
        Traced.ofExcept (readUntil d read (found b) names) := h
    clear hnames h
    rw [ok_bind]
    induction names with
    | nil => rfl
    | cons name names ih =>
      have hfirst := hread [name]
      rw [List.map_cons]
      cases hname : read name with
      | error e =>
        simp only [readUntil, hname] at hfirst ⊢
        exact evaluateUntil_decided hfirst (by simp)
      | ok values =>
        by_cases hfound : found b values = d
        · simp only [readUntil, hname, if_pos hfound] at hfirst ⊢
          exact evaluateUntil_decided hfirst (by simp)
        · simp only [readUntil, hname, if_neg hfound] at hfirst ⊢
          rw [evaluateUntil_passed hfirst, ih]
          rfl

theorem Searches.sameMembers (h : Searches env enabled mail d gate read found test)
    (hread : ∀ name e, read name ≠ .error e) {names names' : List String} (hmembers : SameMembers names names') :
    env.evaluate enabled mail (test names') = env.evaluate enabled mail (test names) := by
  rw [h names, h names']
  simp only [readUntil_sameMembers hread hmembers]

def combined (d : Bool) (p : Position) (ts : List Test) : Test :=
  ⟨connective d, [], some ts, p⟩

theorem Searches.evaluate_combined (h : Searches env enabled mail d gate read found test)
    (hextends : env.ExtendsStandard) {names : List String} (hnames : names ≠ []) (p : Position) :
    env.evaluate enabled mail (test names) =
      env.evaluate enabled mail (combined d p (names.map fun name => test [name])) := by
  have hcheck : verdict (combined d p (names.map fun name => test [name])).testList = .ok () := by
    obtain ⟨name, rest, rfl⟩ := List.exists_cons_of_ne_nil hnames
    rfl
  rw [evaluate_connective hextends rfl hcheck rfl, h.evaluateUntil hnames]

/-- A test of the family, against its parts and against the others with the same names. -/
theorem Searches.distributes (h : Searches env enabled mail d gate read found test) (hextends : env.ExtendsStandard)
    (hread : (∀ e, ¬ mail.Fails e) → ∀ name e, read name ≠ .error e) {t : Test} {names : List String}
    (ht : t = test names) :
    (names ≠ [] → ∀ p, env.evaluate enabled mail t =
      env.evaluate enabled mail (combined d p (names.map fun name => test [name]))) ∧
    ((∀ e, ¬ mail.Fails e) → ∀ names', SameMembers names names' →
      env.evaluate enabled mail (test names') = env.evaluate enabled mail t) := by
  subst ht
  constructor
  · intro hnames p
    exact h.evaluate_combined hextends hnames p
  · intro hmail names' hmembers
    exact h.sameMembers (hread hmail) hmembers

/-! ## The tests of the mail -/

/-- What a test of the mail does before it reads: it may have to be required, and its operands
may ask for more. -/
def admission (env : Environment) (enabled : List String) (kind : TestKind) (t : Test) (operand : Except Error β) :
    Except Error β :=
  (env.checkEnabled enabled .test t.name kind.isExtension >>= fun _ => operand).mapError (·.locate t.position)

/-- Tests that differ in their names alone make the same checks, and then read. -/
theorem searches_of_valueOf {t : Test} {kind : TestKind} {operand : Except Error β}
    (hlook : env.tests.lookup t.name = .ok kind)
    (htest : ∀ names, (test names).name = t.name ∧ (test names).position = t.position)
    (hcheck : ∀ names, kind.check (test names) = .ok ())
    (hvalue : ∀ names, env.valueOf enabled mail kind (test names) =
      Traced.ofExcept (operand >>= fun b => readUntil d read (found b) names)) :
    Searches env enabled mail d (env.admission enabled kind t operand) read found test := by
  intro names
  unfold admission
  rw [evaluate_eq, (htest names).1, (htest names).2, hlook, Traced.ofExcept_ok_bind, hcheck,
    Traced.ofExcept_ok_bind, hvalue]
  cases env.checkEnabled enabled .test t.name kind.isExtension with
  | error e => rfl
  | ok _ =>
    cases operand with
    | error e => rfl
    | ok b => exact congrArg Traced.ofExcept (readUntil_locate t.position names)

end

/-- What a comparison is about: whether it takes an address part, what it reads for a name, and
which parts of a value it compares. -/
inductive Compares (mail : Mail) :
    TestKind → Bool → (String → Except MailError (List String)) → (AddressPart → String → List String) → Prop
  | header : Compares mail .header false mail.header fun _ value => [value]
  | address : Compares mail .address true mail.header fun part value => (AddressList.split value).map part.extract
  | envelope : Compares mail .envelope true mail.envelope fun part value => [part.extract value]

section
variable {env : Environment} {enabled : List String} {mail : Mail} {t : Test} {kind : TestKind} {takesPart : Bool}
  {read : String → Except MailError (List String)} {parts : AddressPart → String → List String}

theorem Compares.check_eq (h : Compares mail kind takesPart read parts) (t : Test) :
    kind.check t = liftShape (verdict (Comparison.ofTest t takesPart 2)) := by
  cases h <;> rfl

theorem Compares.valueOf_eq (h : Compares mail kind takesPart read parts) (env : Environment)
    (enabled : List String) (t : Test) :
    env.valueOf enabled mail kind t = Traced.ofExcept (env.compareRead enabled t takesPart read parts) := by
  cases h <;> rfl

/-- A comparison searches among its names, whatever these are. -/
theorem Compares.searches (h : Compares mail kind takesPart read parts) (env : Environment) (enabled : List String)
    (hlook : env.tests.lookup t.name = .ok kind) (hcheck : kind.check t = .ok ()) :
    ∃ tags names keys, t = t.withLists tags [names, keys] ∧ ∃ gate m part, ∀ keys,
      Searches env enabled mail true gate read
        (fun comparator values => MatchType.any m comparator (values.flatMap (parts part)) keys)
        fun names => t.withLists tags [names, keys] := by
  rw [h.check_eq, liftShape_eq_ok, verdict_eq_ok] at hcheck
  obtain ⟨args, hargs⟩ := hcheck
  obtain ⟨tags, ht, hlength, hlists⟩ := Comparison.ofTest_split hargs
  obtain ⟨names, keys, hoperands⟩ := List.length_eq_two.1 hlength
  refine ⟨tags, names, keys, hoperands ▸ ht, env.admission enabled kind t (env.comparator enabled args.comparator),
    args.matchType, args.addressPart, ?_⟩
  intro keys
  refine searches_of_valueOf hlook (fun _ => ⟨rfl, rfl⟩) ?_ ?_
  · intro names
    rw [h.check_eq, hlists [names, keys] rfl]
    rfl
  · intro names
    rw [h.valueOf_eq]
    simp only [compareRead, hlists [names, keys] rfl, liftShape, ok_bind, anyRead_eq]

theorem body_searches (env : Environment) (enabled : List String) (mail : Mail)
    (hlook : env.tests.lookup t.name = .ok .body) (hcheck : TestKind.body.check t = .ok ()) :
    ∃ tags keys, t = t.withLists tags [keys] ∧ ∃ gate : Except Error Unit,
      Searches env enabled mail true gate mail.bodyContains (fun _ found => found)
        fun keys => t.withLists tags [keys] := by
  obtain ⟨keys, hkeys⟩ := verdict_eq_ok.1 (liftShape_eq_ok.1 hcheck)
  obtain ⟨tags, ht, hall⟩ := Test.bodyKeys_split hkeys
  refine ⟨tags, keys, ht, env.admission enabled .body t (.ok ()), ?_⟩
  refine searches_of_valueOf hlook (fun _ => ⟨rfl, rfl⟩) ?_ ?_
  · intro keys
    exact liftShape_eq_ok.2 (verdict_eq_ok.2 ⟨keys, hall keys⟩)
  · intro keys
    show Traced.ofExcept (env.leafValue enabled mail .body _) = _
    simp only [leafValue, hall keys, liftShape, ok_bind, anyRead_eq]

theorem present_searches (env : Environment) (enabled : List String) (mail : Mail)
    (hlook : env.tests.lookup t.name = .ok .present) (hcheck : TestKind.present.check t = .ok ()) :
    ∃ names, t = t.withLists [] [names] ∧ ∃ gate : Except Error Unit,
      Searches env enabled mail false gate mail.header (fun _ values => !values.isEmpty)
        fun names => t.withLists [] [names] := by
  obtain ⟨names, hnames⟩ := verdict_eq_ok.1 (liftShape_eq_ok.1 hcheck)
  obtain ⟨ht, hall⟩ := Test.presentNames_split hnames
  refine ⟨names, ht, env.admission enabled .present t (.ok ()), ?_⟩
  refine searches_of_valueOf hlook (fun _ => ⟨rfl, rfl⟩) ?_ ?_
  · intro names
    exact liftShape_eq_ok.2 (verdict_eq_ok.2 ⟨names, hall names⟩)
  · intro names
    show Traced.ofExcept (env.leafValue enabled mail .present _) = _
    simp only [leafValue, hall names, liftShape, ok_bind, allRead_eq]

end

/-! ## The standard tests -/

theorem extendsStandard_standardWith (strict : Bool) : (standardWith strict).ExtendsStandard :=
  ⟨rfl, id, id⟩

theorem exists_compares {t : Test} {kind : TestKind} (hname : t.name ∈ ["header", "address", "envelope"])
    (hlook : standard.tests.lookup t.name = .ok kind) (mail : Mail) :
    ∃ takesPart read parts, Compares mail kind takesPart read parts := by
  rw [List.mem_cons, List.mem_cons, List.mem_singleton] at hname
  rcases hname with hname | hname | hname
  · have hheader : standard.tests.lookup t.name = .ok .header := by rw [hname]; rfl
    cases hheader.symm.trans hlook
    exact ⟨_, _, _, .header⟩
  · have haddress : standard.tests.lookup t.name = .ok .address := by rw [hname]; rfl
    cases haddress.symm.trans hlook
    exact ⟨_, _, _, .address⟩
  · have henvelope : standard.tests.lookup t.name = .ok .envelope := by rw [hname]; rfl
    cases henvelope.symm.trans hlook
    exact ⟨_, _, _, .envelope⟩

theorem Compares.reads {mail : Mail} {kind : TestKind} {takesPart : Bool}
    {read : String → Except MailError (List String)} {parts : AddressPart → String → List String}
    (h : Compares mail kind takesPart read parts) (hmail : ∀ e, ¬ mail.Fails e) :
    ∀ name e, read name ≠ .error e := by
  intro name e hname
  cases h with
  | header | address => exact hmail e (.header name hname)
  | envelope => exact hmail e (.envelope name hname)

/-- A well-shaped test over a list comes to what `anyof` makes of a test for each member, or
`allof` where all have to be there, be it a value or an error. If the mail can be read, order
and repetition in its lists change nothing. -/
theorem evaluate_distributes (strict : Bool) (enabled : List String) (mail : Mail) {t : Test} {kind : TestKind}
    (hlook : standard.tests.lookup t.name = .ok kind) (hcheck : kind.check t = .ok ()) :
    let value := (standardWith strict).evaluate enabled mail
    let readable := ∀ e, ¬ mail.Fails e
    (t.name ∈ ["header", "address", "envelope"] → ∃ tags names keys, t = t.withLists tags [names, keys] ∧
      (names ≠ [] → ∀ p, value t = value ⟨"anyof", [], some (names.map fun n => t.withLists tags [[n], keys]), p⟩) ∧
      (readable → ∀ names' keys', SameMembers names names' → SameMembers keys keys' →
        value (t.withLists tags [names', keys']) = value t)) ∧
    (t.name = "body" → ∃ tags keys, t = t.withLists tags [keys] ∧
      (keys ≠ [] → ∀ p, value t = value ⟨"anyof", [], some (keys.map fun k => t.withLists tags [[k]]), p⟩) ∧
      (readable → ∀ keys', SameMembers keys keys' → value (t.withLists tags [keys']) = value t)) ∧
    (t.name = "exists" → ∃ names, t = t.withLists [] [names] ∧
      (names ≠ [] → ∀ p, value t = value ⟨"allof", [], some (names.map fun n => t.withLists [] [[n]]), p⟩) ∧
      (readable → ∀ names', SameMembers names names' → value (t.withLists [] [names']) = value t)) := by
  intro value readable
  have hextends := extendsStandard_standardWith strict
  refine ⟨?_, ?_, ?_⟩
  · intro hname
    obtain ⟨takesPart, read, parts, hcompares⟩ := exists_compares hname hlook mail
    obtain ⟨tags, names, keys, ht, gate, m, part, hsearch⟩ :=
      hcompares.searches (standardWith strict) enabled hlook hcheck
    obtain ⟨hparts, hmoved⟩ := (hsearch keys).distributes hextends hcompares.reads ht
    refine ⟨tags, names, keys, ht, hparts, ?_⟩
    intro hmail names' keys' hnames hkeys
    have hmatch : ∀ comparator values, MatchType.any m comparator values keys' = m.any comparator values keys :=
      fun comparator values => (MatchType.any_sameMembers hkeys m comparator values).symm
    have hsearch' := hsearch keys'
    simp only [hmatch] at hsearch'
    calc value (t.withLists tags [names', keys'])
      _ = value (t.withLists tags [names', keys]) := (hsearch' names').trans (hsearch keys names').symm
      _ = value t := hmoved hmail names' hnames
  · intro hname
    have hbody : standard.tests.lookup t.name = .ok .body := by rw [hname]; rfl
    cases hbody.symm.trans hlook
    obtain ⟨tags, keys, ht, gate, hsearch⟩ := body_searches (standardWith strict) enabled mail hlook hcheck
    have hreads : readable → ∀ phrase e, mail.bodyContains phrase ≠ .error e :=
      fun hmail phrase e h => hmail e (.body phrase h)
    exact ⟨tags, keys, ht, hsearch.distributes hextends hreads ht⟩
  · intro hname
    have hpresent : standard.tests.lookup t.name = .ok .present := by rw [hname]; rfl
    cases hpresent.symm.trans hlook
    obtain ⟨names, ht, gate, hsearch⟩ := present_searches (standardWith strict) enabled mail hlook hcheck
    have hreads : readable → ∀ name e, mail.header name ≠ .error e :=
      fun hmail name e h => hmail e (.header name h)
    exact ⟨names, ht, hsearch.distributes hextends hreads ht⟩

/-- `address :domain :comparator "i;octet" names keys` -/
def domainTest (names keys : List String) : Test :=
  ⟨"address", [.tag ":domain", .tag ":comparator", .strings ["i;octet"], .strings names, .strings keys],
    none, ⟨1, 4⟩⟩

def patchyMail : Mail :=
  { plainMail with header := fun name => if name = "Sender" then .error (.io "lost") else .ok [] }

def frankMail : Mail :=
  { plainMail with envelope := fun _ => .ok ["a@example.org"] }

theorem frankMail_readable (e : MailError) : ¬ frankMail.Fails e := by
  intro h
  cases h with
  | header name h | size h | envelope part h | body phrase h => cases h

/-- The second of three headers cannot be read, and the first is absent. Of another mail,
the headers and the keys can be taken in any order. -/
theorem evaluate_distributes_patchyMail :
    let t := domainTest ["From", "Sender", "To"] ["example.com", "b"]
    let value := (standardWith true).evaluate []
    standard.tests.lookup t.name = .ok .address ∧ TestKind.address.check t = .ok () ∧
      value patchyMail t = ⟨[], .error (.mail (.io "lost"))⟩ ∧
      value patchyMail t = value patchyMail ⟨"anyof", [], some [domainTest ["From"] ["example.com", "b"],
        domainTest ["Sender"] ["example.com", "b"], domainTest ["To"] ["example.com", "b"]], ⟨7, 1⟩⟩ ∧
      (∀ e, ¬ frankMail.Fails e) ∧
      value frankMail (domainTest ["To", "Sender", "From", "To"] ["b", "example.com"]) = value frankMail t := by
  intro t value
  have hlook : standard.tests.lookup t.name = .ok .address := by rfl
  have hcheck : TestKind.address.check t = .ok () := by rfl
  have hlists : ∀ tags names keys, t = t.withLists tags [names, keys] →
      tags = [.tag ":domain", .tag ":comparator", .strings ["i;octet"]] ∧
        names = ["From", "Sender", "To"] ∧ keys = ["example.com", "b"] := by
    intro tags names keys ht
    have hargs : [.tag ":domain", .tag ":comparator", .strings ["i;octet"]] ++
        [.strings ["From", "Sender", "To"], .strings ["example.com", "b"]] =
          tags ++ [Argument.strings names, .strings keys] := congrArg Test.arguments ht
    obtain ⟨rfl, hlists⟩ := List.append_inj' hargs rfl
    cases hlists
    exact ⟨rfl, rfl, rfl⟩
  have hmembers : SameMembers ["From", "Sender", "To"] ["To", "Sender", "From", "To"] := by
    intro name
    simp only [List.mem_cons, List.not_mem_nil, or_false]
    tauto
  have hkeys : SameMembers ["example.com", "b"] ["b", "example.com"] := by
    intro key
    simp only [List.mem_cons, List.not_mem_nil, or_false]
    tauto
  obtain ⟨tags, names, keys, ht, hcombined, -⟩ :=
    (evaluate_distributes true [] patchyMail hlook hcheck).1 (by simp [t, domainTest])
  obtain ⟨rfl, rfl, rfl⟩ := hlists tags names keys ht
  obtain ⟨tags, names, keys, ht, -, hmoved⟩ :=
    (evaluate_distributes true [] frankMail hlook hcheck).1 (by simp [t, domainTest])
  obtain ⟨rfl, rfl, rfl⟩ := hlists tags names keys ht
  exact ⟨hlook, hcheck, by rfl, hcombined (by simp) ⟨7, 1⟩, frankMail_readable,
    hmoved frankMail_readable _ _ hmembers hkeys⟩

end Environment

end MailSieve
