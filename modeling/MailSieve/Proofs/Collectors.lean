import MailSieve.Proofs.Reading

/-!
# What the collectors accept

A collector goes through the readings of a node's children and fills its slots as it goes. Whether
it accepts them is a matter of their kinds alone, and what it returns is what can be picked out of
them in their order.
-/

namespace MailSieve

def NodeKind.Admits : NodeKind → List NodeKind → Prop
  | .start, kinds => kinds = [.commands]
  | .commands, kinds => ∀ k ∈ kinds, k = .command
  | .command, kinds =>
    (∀ k ∈ kinds, k = .arguments ∨ k = .block) ∧ kinds.count .arguments ≤ 1 ∧ kinds.count .block ≤ 1
  | .block, kinds => kinds = [.commands]
  | .arguments, kinds =>
    (∀ k ∈ kinds, k = .argument ∨ k = .test ∨ k = .testList) ∧ kinds.countP (fun k => k = .test ∨ k = .testList) ≤ 1
  | .argument, kinds =>
    (kinds ≠ [] ∧ ∀ k ∈ kinds, k = .string ∨ k = .stringList) ∨ kinds = [.number] ∨ kinds = [.tag]
  | .test, kinds => (∀ k ∈ kinds, k = .arguments) ∧ kinds.count .arguments ≤ 1
  | .testList, kinds => ∀ k ∈ kinds, k = .test
  | .stringList, kinds => ∀ k ∈ kinds, k = .string ∨ k = .stringList
  | .string, kinds | .number, kinds | .tag, kinds => kinds = []

/-! ## What can be picked -/

namespace Reading

def commands? : Reading → Option (List Command)
  | commands cs => some cs
  | _ => none

def block? : Reading → Option (List Command)
  | block cs => some cs
  | _ => none

def arguments? : Reading → Option (List Argument × Option (List Test))
  | arguments positional tests => some (positional, tests)
  | _ => none

def positional? : Reading → Option Argument
  | argument a => some a
  | _ => none

def tests? : Reading → Option (List Test)
  | test t => some [t]
  | testList tests => some tests
  | _ => none

def joinedStrings (fs : List Reading) : List String :=
  (fs.filterMap strings?).flatten

def joinedArgument : List Reading → Argument
  | [number value] => .number value
  | [tag name] => .tag name
  | fs => .strings (joinedStrings fs)

/-! ## Collectors -/

/-- All children could be read, and `P` holds of their readings. -/
def AllRead (rs : Results) (P : List Reading → Prop) : Prop :=
  ∃ fs : List Reading, rs = fs.map .ok ∧ P fs

section
variable {r : Except Error Reading} {rs : Results} {P Q : List Reading → Prop}

theorem allRead_nil : AllRead [] P ↔ P [] := by
  constructor
  · intro ⟨fs, hfs, h⟩
    cases List.map_eq_nil_iff.1 hfs.symm
    exact h
  · intro h
    exact ⟨[], rfl, h⟩

theorem allRead_cons : AllRead (r :: rs) P ↔ ∃ f, r = .ok f ∧ AllRead rs fun fs => P (f :: fs) := by
  constructor
  · intro ⟨fs, hfs, h⟩
    obtain ⟨f, fs, rfl, hf, hrs⟩ := List.map_eq_cons_iff.1 hfs.symm
    exact ⟨f, hf.symm, fs, hrs.symm, h⟩
  · intro ⟨f, hf, fs, hrs, h⟩
    exact ⟨f :: fs, by rw [hf, hrs]; rfl, h⟩

theorem allRead_congr (h : ∀ fs, P fs ↔ Q fs) : AllRead rs P ↔ AllRead rs Q :=
  exists_congr fun fs => and_congr_right fun _ => h fs

/-- An error is in order if the readings are not. -/
theorem error_iff_allRead {e : Error} {a : α} (h : ∀ fs, ¬P fs) :
    (.error e : Except Error α) = .ok a ↔ AllRead rs P := by
  constructor
  · intro he
    cases he
  · intro ⟨fs, _, hfs⟩
    exact absurd hfs (h fs)

end

/-! A slot that may be filled once holds in the end what there is to fill it with. -/

theorem eq_toList_iff {xs : List α} {o : Option α} : xs = o.toList ↔ xs.length ≤ 1 ∧ o = xs.head? := by
  match xs with
  | [] => cases o <;> simp
  | [x] => cases o <;> simp [eq_comm]
  | x :: y :: xs => cases o <;> simp

theorem toList_inj {o o' : Option α} : o.toList = o'.toList ↔ o = o' := by
  cases o <;> cases o' <;> simp

theorem ne_toList {x y : α} {xs : List α} {o : Option α} : (some x).toList ++ y :: xs ≠ o.toList := by
  cases o <;> simp

theorem and_cons_congr {P : Reading → Prop} {Q : Prop} {f : Reading} {fs : List Reading} (hf : P f) :
    (∀ g ∈ fs, P g) ∧ Q ↔ (∀ g ∈ f :: fs, P g) ∧ Q := by
  rw [List.forall_mem_cons, and_iff_right hf]

theorem collect_eq_ok {parent : NodeKind} {pick : Reading → Option α} {rs : Results} {items : List α} :
    collect parent pick rs = .ok items ↔
      AllRead rs fun fs => (∀ f ∈ fs, (pick f).isSome) ∧ items = fs.filterMap pick := by
  induction rs generalizing items with
  | nil =>
    rw [allRead_nil, collect, Except.ok.injEq]
    exact ⟨fun h => ⟨by simp, h.symm⟩, fun h => h.2.symm⟩
  | cons r rs ih =>
    rw [collect_cons_eq_ok, allRead_cons]
    simp only [ih]
    constructor
    · rintro ⟨f, a, as, hf, ha, ⟨fs, hrs, hpick, rfl⟩, rfl⟩
      exact ⟨f, hf, fs, hrs, by simpa [ha] using hpick, by rw [List.filterMap_cons_some ha]⟩
    · rintro ⟨f, hf, fs, hrs, hpick, rfl⟩
      rw [List.forall_mem_cons] at hpick
      obtain ⟨a, ha⟩ := Option.isSome_iff_exists.1 hpick.1
      exact ⟨f, a, _, hf, ha, ⟨fs, hrs, hpick.2, rfl⟩, List.filterMap_cons_some ha⟩

theorem collectCommand_eq_ok {name : String} {p : Position} {parts parts' : CommandParts} {rs : Results} :
    collectCommand name p parts rs = .ok parts' ↔
      AllRead rs fun fs => (∀ f ∈ fs, f.kind = .arguments ∨ f.kind = .block) ∧
        parts.arguments.toList ++ fs.filterMap arguments? = parts'.arguments.toList ∧
        parts.block.toList ++ fs.filterMap block? = parts'.block.toList := by
  induction rs generalizing parts with
  | nil =>
    obtain ⟨arguments, block⟩ := parts
    obtain ⟨arguments', block'⟩ := parts'
    rw [allRead_nil, collectCommand]
    simp [toList_inj]
  | cons r rs ih =>
    rw [collectCommand, bind_eq_ok, allRead_cons]
    refine exists_congr fun f => and_congr_right fun _ => ?_
    obtain ⟨arguments, block⟩ := parts
    cases f with
    | arguments positional tests =>
      cases arguments with
      | none => exact ih.trans (allRead_congr fun fs => and_cons_congr (.inl rfl))
      | some _ => exact error_iff_allRead fun fs h => ne_toList h.2.1
    | block body =>
      cases block with
      | none => exact ih.trans (allRead_congr fun fs => and_cons_congr (.inr rfl))
      | some _ => exact error_iff_allRead fun fs h => ne_toList h.2.2
    | _ =>
      refine error_iff_allRead fun fs h => ?_
      rcases h.1 _ List.mem_cons_self with hkind | hkind <;> cases hkind

theorem collectTest_eq_ok {name : String} {p : Position}
    {known known' : Option (List Argument × Option (List Test))} {rs : Results} :
    collectTest name p known rs = .ok known' ↔
      AllRead rs fun fs => (∀ f ∈ fs, f.kind = .arguments) ∧
        known.toList ++ fs.filterMap arguments? = known'.toList := by
  induction rs generalizing known with
  | nil =>
    rw [allRead_nil, collectTest]
    simp [toList_inj]
  | cons r rs ih =>
    rw [collectTest, bind_eq_ok, allRead_cons]
    refine exists_congr fun f => and_congr_right fun _ => ?_
    cases f with
    | arguments positional tests =>
      cases known with
      | none => exact ih.trans (allRead_congr fun fs => and_cons_congr rfl)
      | some _ => exact error_iff_allRead fun fs h => ne_toList h.2
    | _ =>
      refine error_iff_allRead fun fs h => ?_
      cases h.1 _ List.mem_cons_self

theorem collectArguments_eq_ok {positional positional' : List Argument} {tests tests' : Option (List Test)}
    {rs : Results} :
    collectArguments positional tests rs = .ok (positional', tests') ↔
      AllRead rs fun fs => (∀ f ∈ fs, f.kind = .argument ∨ f.kind = .test ∨ f.kind = .testList) ∧
        positional ++ fs.filterMap positional? = positional' ∧
        tests.toList ++ fs.filterMap tests? = tests'.toList := by
  induction rs generalizing positional tests with
  | nil =>
    rw [allRead_nil, collectArguments]
    simp [toList_inj]
  | cons r rs ih =>
    rw [collectArguments, bind_eq_ok, allRead_cons]
    refine exists_congr fun f => and_congr_right fun _ => ?_
    cases f with
    | argument a =>
      refine ih.trans (allRead_congr fun fs => ?_)
      rw [List.append_assoc]
      exact and_cons_congr (.inl rfl)
    | test t =>
      cases tests with
      | none => exact ih.trans (allRead_congr fun fs => and_cons_congr (.inr (.inl rfl)))
      | some _ => exact error_iff_allRead fun fs h => ne_toList h.2.2
    | testList ts =>
      cases tests with
      | none => exact ih.trans (allRead_congr fun fs => and_cons_congr (.inr (.inr rfl)))
      | some _ => exact error_iff_allRead fun fs h => ne_toList h.2.2
    | _ =>
      refine error_iff_allRead fun fs h => ?_
      rcases h.1 _ List.mem_cons_self with hkind | hkind | hkind <;> cases hkind

def stringsAfter (strings : Option (List String)) (fs : List Reading) : Option (List String) :=
  if fs.filterMap strings? = [] then strings else some (strings.getD [] ++ joinedStrings fs)

theorem stringsAfter_cons (strings : Option (List String)) (items : List String) (fs : List Reading) :
    stringsAfter strings (.strings items :: fs) = stringsAfter (some (strings.getD [] ++ items)) fs := by
  unfold stringsAfter joinedStrings
  rw [List.filterMap_cons_some (f := strings?) rfl, List.flatten_cons, if_neg (List.cons_ne_nil _ _)]
  split
  · next h => rw [h, List.flatten_nil, List.append_nil]
  · simp

def single? : Reading → Option Argument
  | number value => some (.number value)
  | tag name => some (.tag name)
  | _ => none

theorem or_getLast?_cons (a : α) (as : List α) (single : Option α) :
    as.getLast?.or (some a) = (a :: as).getLast?.or single := by
  rw [List.getLast?_cons]
  cases as.getLast? <;> rfl

theorem collectArgument_eq_ok {strings strings' : Option (List String)} {single single' : Option Argument}
    {rs : Results} :
    collectArgument strings single rs = .ok (strings', single') ↔
      AllRead rs fun fs => (∀ f ∈ fs, f.kind = .string ∨ f.kind = .number ∨ f.kind = .tag) ∧
        stringsAfter strings fs = strings' ∧ (fs.filterMap single?).getLast?.or single = single' := by
  induction rs generalizing strings single with
  | nil =>
    rw [allRead_nil, collectArgument]
    simp [stringsAfter]
  | cons r rs ih =>
    rw [collectArgument, bind_eq_ok, allRead_cons]
    refine exists_congr fun f => and_congr_right fun _ => ?_
    cases f with
    | strings items =>
      refine ih.trans (allRead_congr fun fs => ?_)
      rw [← stringsAfter_cons]
      exact and_cons_congr (.inl rfl)
    | number value =>
      refine ih.trans (allRead_congr fun fs => ?_)
      rw [or_getLast?_cons]
      exact and_cons_congr (.inr (.inl rfl))
    | tag name =>
      refine ih.trans (allRead_congr fun fs => ?_)
      rw [or_getLast?_cons]
      exact and_cons_congr (.inr (.inr rfl))
    | _ =>
      refine error_iff_allRead fun fs h => ?_
      rcases h.1 _ List.mem_cons_self with hkind | hkind | hkind <;> cases hkind

/-! ## What nodes accept -/

section
variable {rs : Results} {r : Reading} {name : String} {p : Position}

theorem collect_iff {parent : NodeKind} {pick : Reading → Option α} {P : NodeKind → Prop}
    (hpick : ∀ f, (pick f).isSome = true ↔ P f.kind) (make : List α → Reading) :
    (do return make (← collect parent pick rs)) = .ok r ↔
      AllRead rs fun fs => (∀ k ∈ fs.map kind, P k) ∧ r = make (fs.filterMap pick) := by
  simp only [bind_eq_ok, pure_eq_ok, collect_eq_ok, hpick, List.forall_mem_map]
  constructor
  · intro ⟨items, ⟨fs, hrs, hkinds, hitems⟩, hr⟩
    exact ⟨fs, hrs, hkinds, by rw [← hr, hitems]⟩
  · intro ⟨fs, hrs, hkinds, hr⟩
    exact ⟨_, ⟨fs, hrs, hkinds, rfl⟩, hr.symm⟩

theorem isSome_command? (f : Reading) : (command? f).isSome = true ↔ f.kind = .command := by
  cases f <;> simp [command?, kind]

theorem isSome_test? (f : Reading) : (test? f).isSome = true ↔ f.kind = .test := by
  cases f <;> simp [test?, kind]

theorem isSome_strings? (f : Reading) : (strings? f).isSome = true ↔ f.kind = .string ∨ f.kind = .stringList := by
  cases f <;> simp [strings?, kind]

/-- How often a slot is filled is said by the kinds. -/
theorem eq_toList_iff_kinds {pick : Reading → Option α} {q : NodeKind → Bool} (h : ∀ f, (pick f).isSome = q f.kind)
    {fs : List Reading} {o : Option α} :
    fs.filterMap pick = o.toList ↔ (fs.map kind).countP q ≤ 1 ∧ o = fs.findSome? pick := by
  rw [eq_toList_iff, List.length_filterMap_eq_countP, List.countP_map, List.head?_filterMap]
  simp only [h, Function.comp_def]

theorem arguments?_eq_toList {fs : List Reading} {o : Option (List Argument × Option (List Test))} :
    fs.filterMap arguments? = o.toList ↔ (fs.map kind).count .arguments ≤ 1 ∧ o = fs.findSome? arguments? :=
  eq_toList_iff_kinds (q := (· == .arguments)) fun f => by cases f <;> rfl

theorem block?_eq_toList {fs : List Reading} {o : Option (List Command)} :
    fs.filterMap block? = o.toList ↔ (fs.map kind).count .block ≤ 1 ∧ o = fs.findSome? block? :=
  eq_toList_iff_kinds (q := (· == .block)) fun f => by cases f <;> rfl

theorem tests?_eq_toList {fs : List Reading} {o : Option (List Test)} :
    fs.filterMap tests? = o.toList ↔
      (fs.map kind).countP (fun k => k = .test ∨ k = .testList) ≤ 1 ∧ o = fs.findSome? tests? :=
  eq_toList_iff_kinds (q := fun k => k = .test ∨ k = .testList) fun f => by cases f <;> rfl

theorem ofCommand_iff :
    ofCommand name p rs = .ok r ↔ AllRead rs fun fs => NodeKind.Admits .command (fs.map kind) ∧
      r = .command ⟨name, ((fs.findSome? arguments?).getD ([], none)).1,
        ((fs.findSome? arguments?).getD ([], none)).2, fs.findSome? block?, p⟩ := by
  unfold ofCommand
  simp only [bind_eq_ok, pure_eq_ok, collectCommand_eq_ok, Option.toList_none, List.nil_append,
    arguments?_eq_toList, block?_eq_toList, NodeKind.Admits, List.forall_mem_map]
  constructor
  · intro ⟨parts, ⟨fs, hrs, hkinds, ⟨hcount, harguments⟩, hcount', hblock⟩, hr⟩
    exact ⟨fs, hrs, ⟨hkinds, hcount, hcount'⟩, by rw [← hr, harguments, hblock]⟩
  · intro ⟨fs, hrs, ⟨hkinds, hcount, hcount'⟩, hr⟩
    exact ⟨⟨_, _⟩, ⟨fs, hrs, hkinds, ⟨hcount, rfl⟩, hcount', rfl⟩, hr.symm⟩

theorem ofArguments_iff :
    ofArguments rs = .ok r ↔ AllRead rs fun fs => NodeKind.Admits .arguments (fs.map kind) ∧
      r = .arguments (fs.filterMap positional?) (fs.findSome? tests?) := by
  unfold ofArguments
  simp only [bind_eq_ok, pure_eq_ok, Prod.exists, collectArguments_eq_ok, Option.toList_none, List.nil_append,
    tests?_eq_toList, NodeKind.Admits, List.forall_mem_map]
  constructor
  · intro ⟨positional, tests, ⟨fs, hrs, hkinds, hpositional, hcount, htests⟩, hr⟩
    exact ⟨fs, hrs, ⟨hkinds, hcount⟩, by rw [← hr, hpositional, htests]⟩
  · intro ⟨fs, hrs, ⟨hkinds, hcount⟩, hr⟩
    exact ⟨_, _, ⟨fs, hrs, hkinds, rfl, hcount, rfl⟩, hr.symm⟩

theorem ofTest_iff :
    ofTest name p rs = .ok r ↔ AllRead rs fun fs => NodeKind.Admits .test (fs.map kind) ∧
      r = .test ⟨name, ((fs.findSome? arguments?).getD ([], none)).1, ((fs.findSome? arguments?).getD ([], none)).2,
        p⟩ := by
  unfold ofTest
  simp only [bind_eq_ok, pure_eq_ok, collectTest_eq_ok, Option.toList_none, List.nil_append, arguments?_eq_toList,
    NodeKind.Admits, List.forall_mem_map]
  constructor
  · intro ⟨known, ⟨fs, hrs, hkinds, hcount, hknown⟩, hr⟩
    exact ⟨fs, hrs, ⟨hkinds, hcount⟩, by rw [← hr, hknown]⟩
  · intro ⟨fs, hrs, ⟨hkinds, hcount⟩, hr⟩
    exact ⟨_, ⟨fs, hrs, hkinds, hcount, rfl⟩, hr.symm⟩

theorem eq_commands_of_kind {f : Reading} (h : f.kind = .commands) : ∃ cs, f = .commands cs := by
  cases f with
  | commands cs => exact ⟨cs, rfl⟩
  | _ => cases h

theorem ofBlock_iff :
    ofBlock rs = .ok r ↔ AllRead rs fun fs => NodeKind.Admits .block (fs.map kind) ∧
      r = .block (fs.filterMap commands?).flatten := by
  constructor
  · intro h
    match rs, h with
    | [x], h =>
      obtain ⟨cs, rfl, rfl⟩ := ofBlock_eq_ok.1 h
      exact ⟨[.commands cs], rfl, rfl, by simp [commands?]⟩
  · intro ⟨fs, hrs, hkinds, hr⟩
    obtain ⟨f, rfl, hf⟩ := List.map_eq_singleton_iff.1 hkinds
    obtain ⟨cs, rfl⟩ := eq_commands_of_kind hf
    rw [hrs, hr]
    exact ofBlock_eq_ok.2 ⟨cs, rfl, by simp [commands?]⟩

theorem exists_lists {fs : List Reading} (h : ∀ f ∈ fs, f.kind = .string ∨ f.kind = .stringList) :
    ∃ lists : List (List String), fs = lists.map .strings := by
  induction fs with
  | nil => exact ⟨[], rfl⟩
  | cons f fs ih =>
    rw [List.forall_mem_cons] at h
    obtain ⟨lists, rfl⟩ := ih h.2
    cases f with
    | strings items => exact ⟨items :: lists, rfl⟩
    | _ => rcases h.1 with hkind | hkind <;> cases hkind

theorem joinedStrings_lists (lists : List (List String)) : joinedStrings (lists.map .strings) = lists.flatten := by
  induction lists with
  | nil => rfl
  | cons items lists ih => exact congrArg (items ++ ·) ih

theorem joinedArgument_lists (lists : List (List String)) :
    joinedArgument (lists.map .strings) = .strings lists.flatten := by
  rw [← joinedStrings_lists]
  match lists with
  | [] => rfl
  | [items] => rfl
  | items :: items' :: lists => rfl

theorem filterMap_single?_lists (lists : List (List String)) :
    (lists.map Reading.strings).filterMap single? = [] := by
  induction lists with
  | nil => rfl
  | cons items lists ih => exact ih

/-- Without a number or a tag among them, the children are strings. -/
theorem lists_of_single?_eq_none {fs : List Reading} (h : (fs.filterMap single?).getLast? = none)
    (hkinds : ∀ f ∈ fs, f.kind = .string ∨ f.kind = .number ∨ f.kind = .tag) :
    ∃ lists : List (List String), fs = lists.map .strings := by
  rw [List.getLast?_eq_none_iff, List.filterMap_eq_nil_iff] at h
  apply exists_lists
  intro f hf
  rcases hkinds f hf with hkind | hkind | hkind
  · exact .inl hkind
  all_goals
    have hnone := h f hf
    cases f <;> cases hkind
    cases hnone

theorem ofArgument_cases :
    ofArgument rs = .ok r ↔ AllRead rs fun fs =>
      (∀ f ∈ fs, f.kind = .string ∨ f.kind = .number ∨ f.kind = .tag) ∧
        ((∃ items, stringsAfter none fs = some items ∧ (fs.filterMap single?).getLast? = none ∧
            r = .argument (.strings items)) ∨
          ∃ a, stringsAfter none fs = none ∧ (fs.filterMap single?).getLast? = some a ∧ fs.length = 1 ∧
            r = .argument a) := by
  unfold ofArgument
  simp only [bind_eq_ok, Prod.exists, collectArgument_eq_ok, Option.or_none]
  constructor
  · intro ⟨items, single, ⟨fs, hrs, hkinds, hitems, hsingle⟩, hr⟩
    refine ⟨fs, hrs, hkinds, ?_⟩
    cases items with
    | none =>
      cases single with
      | none => cases hr
      | some a =>
        by_cases hlength : rs.length = 1
        · simp only [hlength, if_true, pure_eq_ok] at hr
          rw [hrs, List.length_map] at hlength
          exact .inr ⟨a, hitems, hsingle, hlength, hr.symm⟩
        · simp only [hlength, if_false] at hr
          cases hr
    | some items =>
      cases single with
      | none => exact .inl ⟨items, hitems, hsingle, (pure_eq_ok.1 hr).symm⟩
      | some a => cases hr
  · intro ⟨fs, hrs, hkinds, h⟩
    rcases h with ⟨items, hitems, hsingle, hr⟩ | ⟨a, hitems, hsingle, hlength, hr⟩
    · exact ⟨some items, none, ⟨fs, hrs, hkinds, hitems, hsingle⟩, by rw [hr]; rfl⟩
    · refine ⟨none, some a, ⟨fs, hrs, hkinds, hitems, hsingle⟩, ?_⟩
      have hlength' : rs.length = 1 := by rw [hrs, List.length_map, hlength]
      simp only [hlength', if_true, hr]
      rfl

theorem ofArgument_iff :
    ofArgument rs = .ok r ↔ AllRead rs fun fs => NodeKind.Admits .argument (fs.map kind) ∧
      r = .argument (joinedArgument fs) := by
  refine ofArgument_cases.trans (allRead_congr fun fs => ?_)
  simp only [NodeKind.Admits, List.forall_mem_map]
  constructor
  · intro ⟨hkinds, h⟩
    rcases h with ⟨items, hitems, hsingle, hr⟩ | ⟨a, -, hsingle, hlength, hr⟩
    · obtain ⟨lists, rfl⟩ := lists_of_single?_eq_none hsingle hkinds
      cases lists with
      | nil => cases hitems
      | cons first lists =>
        have hitems : (first :: lists).flatten = items := by
          rw [← joinedStrings_lists]
          exact Option.some.inj hitems
        refine ⟨.inl ⟨List.cons_ne_nil _ _, ?_⟩, by rw [hr, joinedArgument_lists, hitems]⟩
        rw [List.forall_mem_map]
        exact fun _ _ => .inl rfl
    -- Of several numbers and tags only the last is kept, so the length has to say that it is the only one.
    · obtain ⟨f, rfl⟩ := List.length_eq_one_iff.1 hlength
      cases f with
      | number value => cases hsingle; exact ⟨.inr (.inl rfl), hr⟩
      | tag name => cases hsingle; exact ⟨.inr (.inr rfl), hr⟩
      | _ => cases hsingle
  · intro ⟨hkinds, hr⟩
    rcases hkinds with ⟨hne, hall⟩ | hkinds | hkinds
    · obtain ⟨lists, rfl⟩ := exists_lists hall
      cases lists with
      | nil => exact absurd rfl hne
      | cons first lists =>
        refine ⟨?_, .inl ⟨(first :: lists).flatten, ?_, ?_, by rw [hr, joinedArgument_lists]⟩⟩
        · rw [List.forall_mem_map]
          exact fun _ _ => .inl rfl
        · rw [← joinedStrings_lists]
          rfl
        · rw [filterMap_single?_lists]
          rfl
    · obtain ⟨f, rfl, hf⟩ := List.map_eq_singleton_iff.1 hkinds
      cases f with
      | number value => exact ⟨by simp [kind], .inr ⟨_, rfl, rfl, rfl, hr⟩⟩
      | _ => cases hf
    · obtain ⟨f, rfl, hf⟩ := List.map_eq_singleton_iff.1 hkinds
      cases f with
      | tag name => exact ⟨by simp [kind], .inr ⟨_, rfl, rfl, rfl, hr⟩⟩
      | _ => cases hf

end

end Reading

end MailSieve
