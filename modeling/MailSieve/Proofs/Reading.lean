import MailSieve.Proofs.Computation
import MailSieve.Proofs.Derivation
import MailSieve.Script.OfTree

/-!
# What the tokens of a script say

The productions once more, now with the arguments, tests and commands that the tokens
stand for in place of nodes. A text compiles exactly if its tokens stand for a script
that is not nested too deep.
-/

namespace MailSieve

/-! ## Productions -/

inductive ReadsString : List PlacedToken → String → List PlacedToken → Prop
  | quoted {literal s p ts} (h : Literal.string literal = .ok s) : ReadsString (⟨.quoted literal, p⟩ :: ts) s ts
  | multiline {literal s p ts} (h : Literal.string literal = .ok s) :
      ReadsString (⟨.multiline literal, p⟩ :: ts) s ts

inductive ReadsStrings : List PlacedToken → List String → List PlacedToken → Prop
  | one {ts s us} (h : ReadsString ts s us) : ReadsStrings ts [s] us
  | more {ts s p us items vs} (h : ReadsString ts s (⟨.punct .comma, p⟩ :: us)) (hs : ReadsStrings us items vs) :
      ReadsStrings ts (s :: items) vs

inductive ReadsArgument : List PlacedToken → Argument → List PlacedToken → Prop
  | string {ts s us} (h : ReadsString ts s us) : ReadsArgument ts (.strings [s]) us
  | number {literal value p ts} (h : Literal.number literal = .ok value) :
      ReadsArgument (⟨.number literal, p⟩ :: ts) (.number value) ts
  | tag {name p ts} : ReadsArgument (⟨.tag name, p⟩ :: ts) (.tag (Text.lowercase name)) ts
  | stringList {p ts items q us} (hs : ReadsStrings ts items (⟨.punct .closeBracket, q⟩ :: us)) :
      ReadsArgument (⟨.punct .openBracket, p⟩ :: ts) (.strings items) us

inductive ReadsPlain : List PlacedToken → List Argument → List PlacedToken → Prop
  | nil {ts} : ReadsPlain ts [] ts
  | cons {ts a us as vs} (h : ReadsArgument ts a us) (hs : ReadsPlain us as vs) : ReadsPlain ts (a :: as) vs

mutual
inductive ReadsArguments : List PlacedToken → List Argument → Option (List Test) → List PlacedToken → Prop
  | arguments {ts as us tests vs} (h : ReadsPlain ts as us) (hl : ReadsLast us tests vs) :
      ReadsArguments ts as tests vs
inductive ReadsLast : List PlacedToken → Option (List Test) → List PlacedToken → Prop
  | none {ts} : ReadsLast ts none ts
  | test {ts t us} (h : ReadsTest ts t us) : ReadsLast ts (some [t]) us
  | testList {p ts tests q us} (hs : ReadsTests ts tests (⟨.punct .closeParen, q⟩ :: us)) :
      ReadsLast (⟨.punct .openParen, p⟩ :: ts) (some tests) us
inductive ReadsTest : List PlacedToken → Test → List PlacedToken → Prop
  | test {name p ts as tests us} (h : ReadsArguments ts as tests us) :
      ReadsTest (⟨.identifier name, p⟩ :: ts) ⟨name, as, tests, p⟩ us
inductive ReadsTests : List PlacedToken → List Test → List PlacedToken → Prop
  | one {ts t us} (h : ReadsTest ts t us) : ReadsTests ts [t] us
  | more {ts t p us tests vs} (h : ReadsTest ts t (⟨.punct .comma, p⟩ :: us)) (hs : ReadsTests us tests vs) :
      ReadsTests ts (t :: tests) vs
end

mutual
inductive ReadsCommands : List PlacedToken → List Command → List PlacedToken → Prop
  | nil {ts} : ReadsCommands ts [] ts
  | cons {ts c us cs vs} (h : ReadsCommand ts c us) (hs : ReadsCommands us cs vs) : ReadsCommands ts (c :: cs) vs
inductive ReadsCommand : List PlacedToken → Command → List PlacedToken → Prop
  | simple {name p ts as tests q us} (h : ReadsArguments ts as tests (⟨.punct .semicolon, q⟩ :: us)) :
      ReadsCommand (⟨.identifier name, p⟩ :: ts) ⟨name, as, tests, none, p⟩ us
  | block {name p ts as tests q us cs r vs} (h : ReadsArguments ts as tests (⟨.punct .openBrace, q⟩ :: us))
      (hs : ReadsCommands us cs (⟨.punct .closeBrace, r⟩ :: vs)) :
      ReadsCommand (⟨.identifier name, p⟩ :: ts) ⟨name, as, tests, some cs, p⟩ vs
end

/-! ## Nesting -/

mutual
def Test.nesting : Test → Nat
  | ⟨_, _, tests, _⟩ => nesting? tests + 1
def Test.nesting? : Option (List Test) → Nat
  | none => 0
  | some tests => nestingAll tests
def Test.nestingAll : List Test → Nat
  | [] => 0
  | t :: tests => max t.nesting (nestingAll tests)
end

mutual
def Command.nesting : Command → Nat
  | ⟨_, _, tests, block, _⟩ => max (Test.nesting? tests) (Script.blockNesting block)
def Script.blockNesting : Option (List Command) → Nat
  | none => 0
  | some commands => Script.nesting commands + 1
def Script.nesting : List Command → Nat
  | [] => 0
  | c :: commands => max c.nesting (Script.nesting commands)
end

/-! ## The readings of nodes -/

namespace Reading

theorem ofNodes_append : ∀ ns ms : List Node, ofNodes (ns ++ ms) = ofNodes ns ++ ofNodes ms
  | [], ms => rfl
  | n :: ns, ms => by rw [List.cons_append, ofNodes, ofNodes, ofNodes_append ns ms, List.cons_append]

theorem ofLiteral_eq_ok {make : α → Reading} {x : Except LiteralFault α} {r : Reading} :
    ofLiteral make x = .ok r ↔ ∃ a, x = .ok a ∧ r = make a := by
  cases x <;> simp [ofLiteral, eq_comm]

theorem collect_cons_eq_ok {parent : NodeKind} {pick : Reading → Option α} {r : Except Error Reading}
    {rs : Results} {items : List α} :
    collect parent pick (r :: rs) = .ok items ↔
      ∃ f a as, r = .ok f ∧ pick f = some a ∧ collect parent pick rs = .ok as ∧ items = a :: as := by
  rw [collect, bind_eq_ok]
  constructor
  · rintro ⟨f, hf, h⟩
    split at h
    · next a ha =>
      obtain ⟨as, has, h⟩ := bind_eq_ok.1 h
      exact ⟨f, a, as, hf, ha, has, (pure_eq_ok.1 h).symm⟩
    · exact absurd h throw_ne_ok
  · rintro ⟨f, a, as, hf, ha, has, rfl⟩
    refine ⟨f, hf, ?_⟩
    simp only [ha, has]
    rfl

def argument? : Reading → Option Argument
  | strings items => some (.strings items)
  | number value => some (.number value)
  | tag name => some (.tag name)
  | _ => none

theorem ofArgument_singleton_eq_ok {x : Except Error Reading} {r : Reading} :
    ofArgument [x] = .ok r ↔ ∃ f a, x = .ok f ∧ f.argument? = some a ∧ r = .argument a := by
  constructor
  · intro h
    cases x with
    | error e => cases h
    | ok f => cases f <;> cases h <;> exact ⟨_, _, rfl, rfl, rfl⟩
  · rintro ⟨f, a, rfl, ha, rfl⟩
    cases f <;> cases ha <;> rfl

theorem ofStringList_eq_ok {rs : Results} {r : Reading} :
    ofStringList rs = .ok r ↔
      ∃ items, collect .stringList strings? rs = .ok items ∧ .strings items.flatten = r := by
  simp only [ofStringList, bind_eq_ok, pure_eq_ok]

theorem ofArguments_eq_ok {rs : Results} {r : Reading} :
    ofArguments rs = .ok r ↔
      ∃ as tests, collectArguments [] none rs = .ok (as, tests) ∧ .arguments as tests = r := by
  simp only [ofArguments, bind_eq_ok, pure_eq_ok, Prod.exists]

theorem ofTest_eq_ok {name : String} {p : Position} {x : Except Error Reading} {r : Reading} :
    ofTest name p [x] = .ok r ↔
      ∃ as tests, x = .ok (.arguments as tests) ∧ r = .test ⟨name, as, tests, p⟩ := by
  constructor
  · intro h
    cases x with
    | error e => cases h
    | ok f =>
      cases f <;> cases h
      exact ⟨_, _, rfl, rfl⟩
  · rintro ⟨as, tests, rfl, rfl⟩
    rfl

theorem ofCommand_eq_ok {name : String} {p : Position} {as : List Argument} {tests : Option (List Test)}
    {x : Except Error Reading} {r : Reading} :
    ofCommand name p [.ok (.arguments as tests), x] = .ok r ↔
      ∃ cs, x = .ok (.block cs) ∧ r = .command ⟨name, as, tests, some cs, p⟩ := by
  constructor
  · intro h
    cases x with
    | error e => cases h
    | ok f =>
      cases f <;> cases h
      exact ⟨_, rfl, rfl⟩
  · rintro ⟨cs, rfl, rfl⟩
    rfl

theorem ok_of_ofCommand {name : String} {p : Position} {x : Except Error Reading} {rs : Results} {r : Reading}
    (h : ofCommand name p (x :: rs) = .ok r) : ∃ f, x = .ok f := by
  cases x with
  | error e => cases h
  | ok f => exact ⟨f, rfl⟩

theorem ofBlock_eq_ok {x : Except Error Reading} {r : Reading} :
    ofBlock [x] = .ok r ↔ ∃ cs, x = .ok (.commands cs) ∧ r = .block cs := by
  constructor
  · intro h
    cases x with
    | error e => cases h
    | ok f =>
      cases f <;> cases h
      exact ⟨_, rfl, rfl⟩
  · rintro ⟨cs, rfl, rfl⟩
    rfl

end Reading

/-! ## From derivations to readings -/

section
open Reading
variable {ts us : List PlacedToken} {n : Node} {ns : List Node} {r : Reading}

theorem DerivesString.reads (h : DerivesString ts n us) (hr : ofNode n = .ok r) :
    ∃ s, r = .strings [s] ∧ ReadsString ts s us := by
  cases h with
  | quoted =>
    obtain ⟨s, hs, rfl⟩ := ofLiteral_eq_ok.1 hr
    exact ⟨s, rfl, .quoted hs⟩
  | multiline =>
    obtain ⟨s, hs, rfl⟩ := ofLiteral_eq_ok.1 hr
    exact ⟨s, rfl, .multiline hs⟩

theorem DerivesStrings.reads {items : List (List String)} (h : DerivesStrings ts ns us)
    (hr : collect .stringList strings? (ofNodes ns) = .ok items) : ReadsStrings ts items.flatten us := by
  induction h generalizing items with
  | one h =>
    obtain ⟨f, a, as, hf, ha, has, rfl⟩ := collect_cons_eq_ok.1 hr
    obtain ⟨s, rfl, hs⟩ := h.reads hf
    cases ha
    cases has
    exact .one hs
  | more h _ ih =>
    obtain ⟨f, a, as, hf, ha, has, rfl⟩ := collect_cons_eq_ok.1 hr
    obtain ⟨s, rfl, hs⟩ := h.reads hf
    cases ha
    exact .more hs (ih has)

theorem DerivesArgument.reads (h : DerivesArgument ts n us) (hr : ofNode n = .ok r) :
    ∃ a, r = .argument a ∧ ReadsArgument ts a us := by
  cases h with
  | string h =>
    obtain ⟨f, a, hf, ha, rfl⟩ := ofArgument_singleton_eq_ok.1 hr
    obtain ⟨s, rfl, hs⟩ := h.reads hf
    cases ha
    exact ⟨_, rfl, .string hs⟩
  | number =>
    obtain ⟨f, a, hf, ha, rfl⟩ := ofArgument_singleton_eq_ok.1 hr
    obtain ⟨value, hvalue, rfl⟩ := ofLiteral_eq_ok.1 hf
    cases ha
    exact ⟨_, rfl, .number hvalue⟩
  | tag =>
    cases hr
    exact ⟨_, rfl, .tag⟩
  | stringList hs =>
    obtain ⟨f, a, hf, ha, rfl⟩ := ofArgument_singleton_eq_ok.1 hr
    obtain ⟨items, hitems, rfl⟩ := ofStringList_eq_ok.1 hf
    cases ha
    exact ⟨_, rfl, .stringList (hs.reads hitems)⟩

/-- The children before the last are arguments. -/
theorem DerivesPlain.reads {rs : Results} {before as : List Argument} {tests : Option (List Test)}
    (h : DerivesPlain ts ns us) (hr : collectArguments before none (ofNodes ns ++ rs) = .ok (as, tests)) :
    ∃ plain, ReadsPlain ts plain us ∧ collectArguments (before ++ plain) none rs = .ok (as, tests) := by
  induction h generalizing before with
  | nil => exact ⟨[], .nil, by rwa [List.append_nil]⟩
  | cons h hs ih =>
    obtain ⟨r, hr', hrest⟩ := bind_eq_ok.1 hr
    obtain ⟨a, rfl, ha⟩ := h.reads hr'
    obtain ⟨plain, hplain, hrest⟩ := ih hrest
    refine ⟨a :: plain, .cons ha hplain, ?_⟩
    rwa [List.append_assoc, List.singleton_append] at hrest

end

theorem Test.one_le_nesting (t : Test) : 1 ≤ t.nesting := by
  cases t
  exact Nat.le_add_left _ _

theorem ReadsTests.one_le_nesting {ts us : List PlacedToken} {tests : List Test} (h : ReadsTests ts tests us) :
    1 ≤ Test.nestingAll tests := by
  have first : ∀ t rest, 1 ≤ Test.nestingAll (t :: rest) :=
    fun t rest => Nat.le_trans t.one_le_nesting (Nat.le_max_left _ _)
  cases h <;> exact first _ _

open Reading

mutual
theorem DerivesArguments.reads {ts us : List PlacedToken} {ns : List Node} {r : Reading}
    (h : DerivesArguments ts ns us) (hr : ofNode (.arguments ns) = .ok r) :
    ∃ as tests, r = .arguments as tests ∧ ReadsArguments ts as tests us ∧
      Node.nestingAll ns = Test.nesting? tests := by
  match h with
  | .arguments hp hl =>
    obtain ⟨as, tests, hcollect, rfl⟩ := ofArguments_eq_ok.1 hr
    rw [ofNodes_append] at hcollect
    obtain ⟨plain, hplain, hlast⟩ := hp.reads hcollect
    obtain ⟨rfl, hlast, hn⟩ := hl.reads hlast
    refine ⟨_, tests, rfl, .arguments hplain hlast, ?_⟩
    rw [Node.nestingAll_append, hp.nestingAll, Nat.zero_max, hn]
termination_by structural h

theorem DerivesLast.reads {ts us : List PlacedToken} {ms : List Node} {before as : List Argument}
    {tests : Option (List Test)} (h : DerivesLast ts ms us)
    (hr : collectArguments before none (ofNodes ms) = .ok (as, tests)) :
    as = before ∧ ReadsLast ts tests us ∧ Node.nestingAll ms = Test.nesting? tests := by
  match h with
  | .none =>
    cases hr
    exact ⟨rfl, .none, rfl⟩
  | .test h =>
    obtain ⟨r, hr', hrest⟩ := bind_eq_ok.1 hr
    obtain ⟨t, rfl, ht, hn⟩ := h.reads hr'
    cases hrest
    refine ⟨rfl, .test ht, ?_⟩
    rw [Node.nestingAll_singleton, hn]
    simp [Test.nesting?, Test.nestingAll]
  | .testList hs =>
    obtain ⟨r, hr', hrest⟩ := bind_eq_ok.1 hr
    obtain ⟨tests', htests, hr'⟩ := bind_eq_ok.1 hr'
    cases hr'
    obtain ⟨hs, hn⟩ := hs.reads htests
    cases hrest
    refine ⟨rfl, .testList hs, ?_⟩
    -- a list has a level even if it is empty, but a list that is read is not
    have := hs.one_le_nesting
    rw [Node.nestingAll_singleton, Node.nesting, hn, Test.nesting?]
    omega
termination_by structural h

theorem DerivesTest.reads {ts us : List PlacedToken} {n : Node} {r : Reading} (h : DerivesTest ts n us)
    (hr : ofNode n = .ok r) : ∃ t, r = .test t ∧ ReadsTest ts t us ∧ n.nesting = t.nesting := by
  match h with
  | .test h =>
    obtain ⟨as, tests, hargs, rfl⟩ := ofTest_eq_ok.1 hr
    obtain ⟨as', tests', heq, ha, hn⟩ := h.reads hargs
    cases heq
    exact ⟨_, rfl, .test ha, by rw [Node.nesting_test, hn, Test.nesting]⟩
termination_by structural h

theorem DerivesTests.reads {ts us : List PlacedToken} {ns : List Node} {tests : List Test}
    (h : DerivesTests ts ns us) (hr : collect .testList test? (ofNodes ns) = .ok tests) :
    ReadsTests ts tests us ∧ Node.nestingAll ns = Test.nestingAll tests := by
  match h with
  | .one h =>
    obtain ⟨f, a, as, hf, ha, has, rfl⟩ := collect_cons_eq_ok.1 hr
    obtain ⟨t, rfl, ht, hn⟩ := h.reads hf
    cases ha
    cases has
    exact ⟨.one ht, by rw [Node.nestingAll_singleton, hn]; simp [Test.nestingAll]⟩
  | .more h hs =>
    obtain ⟨f, a, as, hf, ha, has, rfl⟩ := collect_cons_eq_ok.1 hr
    obtain ⟨t, rfl, ht, hn⟩ := h.reads hf
    obtain ⟨hs, hns⟩ := hs.reads has
    cases ha
    exact ⟨.more ht hs, by rw [Node.nestingAll, hn, hns, Test.nestingAll]⟩
termination_by structural h
end

mutual
theorem DerivesCommands.reads {ts us : List PlacedToken} {ns : List Node} {commands : List Command}
    (h : DerivesCommands ts ns us) (hr : collect .commands command? (ofNodes ns) = .ok commands) :
    ReadsCommands ts commands us ∧ Node.nestingAll ns = Script.nesting commands := by
  match h with
  | .nil =>
    cases hr
    exact ⟨.nil, rfl⟩
  | .cons h hs =>
    obtain ⟨f, a, as, hf, ha, has, rfl⟩ := collect_cons_eq_ok.1 hr
    obtain ⟨c, rfl, hc, hn⟩ := h.reads hf
    obtain ⟨hs, hns⟩ := hs.reads has
    cases ha
    exact ⟨.cons hc hs, by rw [Node.nestingAll, hn, hns, Script.nesting]⟩
termination_by structural h

theorem DerivesCommand.reads {ts us : List PlacedToken} {n : Node} {r : Reading} (h : DerivesCommand ts n us)
    (hr : ofNode n = .ok r) : ∃ c, r = .command c ∧ ReadsCommand ts c us ∧ n.nesting = c.nesting := by
  match h with
  | @DerivesCommand.simple name p _ ns _ _ h =>
    have hr : ofCommand name p [ofNode (.arguments ns)] = .ok r := hr
    obtain ⟨f, hf⟩ := ok_of_ofCommand hr
    obtain ⟨as, tests, rfl, ha, hn⟩ := h.reads hf
    rw [hf] at hr
    cases hr
    refine ⟨_, rfl, .simple ha, ?_⟩
    rw [Node.nesting, Node.nestingAll_singleton, Node.nesting, hn, Command.nesting, Script.blockNesting,
      Nat.max_zero]
  | @DerivesCommand.block name p _ ns _ _ cs _ _ h hs =>
    have hr : ofCommand name p [ofNode (.arguments ns), ofNode (.block [.commands cs])] = .ok r := hr
    obtain ⟨f, hf⟩ := ok_of_ofCommand hr
    obtain ⟨as, tests, rfl, ha, hn⟩ := h.reads hf
    rw [hf] at hr
    obtain ⟨body, hblock, rfl⟩ := ofCommand_eq_ok.1 hr
    obtain ⟨body', hbody, heq⟩ := ofBlock_eq_ok.1 hblock
    cases heq
    obtain ⟨body', hcommands, heq⟩ := bind_eq_ok.1 hbody
    cases heq
    obtain ⟨hs, hns⟩ := hs.reads hcommands
    refine ⟨_, rfl, .block ha hs, ?_⟩
    rw [Node.nesting_command, hn, hns, Command.nesting, Script.blockNesting]
termination_by structural h
end

/-! ## From readings to derivations -/

section
variable {ts us : List PlacedToken}

theorem ReadsString.derives {text : String} (h : ReadsString ts text us) :
    ∃ n, DerivesString ts n us ∧ ofNode n = .ok (.strings [text]) := by
  cases h with
  | quoted h => exact ⟨_, .quoted, ofLiteral_eq_ok.2 ⟨_, h, rfl⟩⟩
  | multiline h => exact ⟨_, .multiline, ofLiteral_eq_ok.2 ⟨_, h, rfl⟩⟩

theorem ReadsStrings.derives {items : List String} (h : ReadsStrings ts items us) :
    ∃ ns groups, DerivesStrings ts ns us ∧ collect .stringList strings? (ofNodes ns) = .ok groups ∧
      groups.flatten = items := by
  induction h with
  | one h =>
    obtain ⟨n, hd, hn⟩ := h.derives
    exact ⟨[n], _, .one hd, collect_cons_eq_ok.2 ⟨_, _, [], hn, rfl, rfl, rfl⟩, rfl⟩
  | more h _ ih =>
    obtain ⟨n, hd, hn⟩ := h.derives
    obtain ⟨ns, groups, hds, hns, rfl⟩ := ih
    exact ⟨n :: ns, _, .more hd hds, collect_cons_eq_ok.2 ⟨_, _, _, hn, rfl, hns, rfl⟩, rfl⟩

theorem ReadsArgument.derives {a : Argument} (h : ReadsArgument ts a us) :
    ∃ n, DerivesArgument ts n us ∧ ofNode n = .ok (.argument a) := by
  cases h with
  | string h =>
    obtain ⟨n, hd, hn⟩ := h.derives
    exact ⟨.argument [n], .string hd, ofArgument_singleton_eq_ok.2 ⟨_, _, hn, rfl, rfl⟩⟩
  | @number literal value _ _ h =>
    have hn : ofNode (.number literal) = .ok (.number value) := ofLiteral_eq_ok.2 ⟨_, h, rfl⟩
    exact ⟨_, .number, ofArgument_singleton_eq_ok.2 ⟨_, _, hn, rfl, rfl⟩⟩
  | tag => exact ⟨_, .tag, rfl⟩
  | stringList hs =>
    obtain ⟨ns, groups, hds, hns, rfl⟩ := hs.derives
    have hn : ofNode (.stringList ns) = .ok (.strings groups.flatten) := ofStringList_eq_ok.2 ⟨_, hns, rfl⟩
    exact ⟨.argument [.stringList ns], .stringList hds, ofArgument_singleton_eq_ok.2 ⟨_, _, hn, rfl, rfl⟩⟩

theorem ReadsPlain.derives {as : List Argument} (h : ReadsPlain ts as us) :
    ∃ ns, DerivesPlain ts ns us ∧ ∀ before rs,
      collectArguments before none (ofNodes ns ++ rs) = collectArguments (before ++ as) none rs := by
  induction h with
  | nil => exact ⟨[], .nil, fun before rs => by rw [List.append_nil]; rfl⟩
  | cons h _ ih =>
    obtain ⟨n, hd, hn⟩ := h.derives
    obtain ⟨ns, hds, hns⟩ := ih
    refine ⟨n :: ns, .cons hd hds, fun before rs => ?_⟩
    rw [ofNodes, hn, List.cons_append]
    show collectArguments (before ++ [_]) none (ofNodes ns ++ rs) = _
    rw [hns, List.append_assoc, List.singleton_append]

end

mutual
theorem ReadsArguments.derives {ts us : List PlacedToken} {as : List Argument} {tests : Option (List Test)}
    (h : ReadsArguments ts as tests us) :
    ∃ ns, DerivesArguments ts ns us ∧ ofNode (.arguments ns) = .ok (.arguments as tests) ∧
      Node.nestingAll ns = Test.nesting? tests := by
  match h with
  | .arguments hp hl =>
    obtain ⟨ns, hdp, hns⟩ := hp.derives
    obtain ⟨ms, hdl, hms, hn⟩ := hl.derives
    refine ⟨ns ++ ms, .arguments hdp hdl, ofArguments_eq_ok.2 ⟨_, _, ?_, rfl⟩, ?_⟩
    · rw [ofNodes_append, hns, hms, List.nil_append]
    · rw [Node.nestingAll_append, hdp.nestingAll, Nat.zero_max, hn]
termination_by structural h

theorem ReadsLast.derives {ts us : List PlacedToken} {tests : Option (List Test)} (h : ReadsLast ts tests us) :
    ∃ ms, DerivesLast ts ms us ∧ (∀ as, collectArguments as none (ofNodes ms) = .ok (as, tests)) ∧
      Node.nestingAll ms = Test.nesting? tests := by
  match h with
  | .none => exact ⟨[], .none, fun _ => rfl, rfl⟩
  | .test h =>
    obtain ⟨n, hd, hr, hn⟩ := h.derives
    refine ⟨[n], .test hd, fun as => ?_, ?_⟩
    · rw [ofNodes, hr]
      rfl
    · rw [Node.nestingAll_singleton, hn]
      simp [Test.nesting?, Test.nestingAll]
  | .testList hs =>
    obtain ⟨ns, hds, hr, hn⟩ := hs.derives
    have := hs.one_le_nesting
    refine ⟨[.testList ns], .testList hds, fun as => ?_, ?_⟩
    · rw [ofNodes, ofNode, hr]
      rfl
    · rw [Node.nestingAll_singleton, Node.nesting, hn, Test.nesting?]
      omega
termination_by structural h

theorem ReadsTest.derives {ts us : List PlacedToken} {t : Test} (h : ReadsTest ts t us) :
    ∃ n, DerivesTest ts n us ∧ ofNode n = .ok (.test t) ∧ n.nesting = t.nesting := by
  match h with
  | .test h =>
    obtain ⟨ns, hd, hr, hn⟩ := h.derives
    exact ⟨_, .test hd, ofTest_eq_ok.2 ⟨_, _, hr, rfl⟩, by rw [Node.nesting_test, hn, Test.nesting]⟩
termination_by structural h

theorem ReadsTests.derives {ts us : List PlacedToken} {tests : List Test} (h : ReadsTests ts tests us) :
    ∃ ns, DerivesTests ts ns us ∧ collect .testList test? (ofNodes ns) = .ok tests ∧
      Node.nestingAll ns = Test.nestingAll tests := by
  match h with
  | .one h =>
    obtain ⟨n, hd, hr, hn⟩ := h.derives
    refine ⟨[n], .one hd, collect_cons_eq_ok.2 ⟨_, _, [], hr, rfl, rfl, rfl⟩, ?_⟩
    rw [Node.nestingAll_singleton, hn]
    simp [Test.nestingAll]
  | .more h hs =>
    obtain ⟨n, hd, hr, hn⟩ := h.derives
    obtain ⟨ns, hds, hrs, hns⟩ := hs.derives
    refine ⟨n :: ns, .more hd hds, collect_cons_eq_ok.2 ⟨_, _, _, hr, rfl, hrs, rfl⟩, ?_⟩
    rw [Node.nestingAll, hn, hns, Test.nestingAll]
termination_by structural h
end

mutual
theorem ReadsCommands.derives {ts us : List PlacedToken} {commands : List Command}
    (h : ReadsCommands ts commands us) :
    ∃ ns, DerivesCommands ts ns us ∧ collect .commands command? (ofNodes ns) = .ok commands ∧
      Node.nestingAll ns = Script.nesting commands := by
  match h with
  | .nil => exact ⟨[], .nil, rfl, rfl⟩
  | .cons h hs =>
    obtain ⟨n, hd, hr, hn⟩ := h.derives
    obtain ⟨ns, hds, hrs, hns⟩ := hs.derives
    refine ⟨n :: ns, .cons hd hds, collect_cons_eq_ok.2 ⟨_, _, _, hr, rfl, hrs, rfl⟩, ?_⟩
    rw [Node.nestingAll, hn, hns, Script.nesting]
termination_by structural h

theorem ReadsCommand.derives {ts us : List PlacedToken} {c : Command} (h : ReadsCommand ts c us) :
    ∃ n, DerivesCommand ts n us ∧ ofNode n = .ok (.command c) ∧ n.nesting = c.nesting := by
  match h with
  | .simple h =>
    obtain ⟨ns, hd, hr, hn⟩ := h.derives
    refine ⟨_, .simple hd, ?_, ?_⟩
    · rw [ofNode, ofNodes, hr]
      rfl
    · rw [Node.nesting, Node.nestingAll_singleton, Node.nesting, hn, Command.nesting, Script.blockNesting,
        Nat.max_zero]
  | .block h hs =>
    obtain ⟨ns, hd, hr, hn⟩ := h.derives
    obtain ⟨ms, hds, hrs, hns⟩ := hs.derives
    refine ⟨_, .block hd hds, ?_, ?_⟩
    · rw [ofNode, ofNodes, hr]
      refine ofCommand_eq_ok.2 ⟨_, ofBlock_eq_ok.2 ⟨_, ?_, rfl⟩, rfl⟩
      rw [ofNode, hrs]
      rfl
    · rw [Node.nesting_command, hn, hns, Command.nesting, Script.blockNesting]
termination_by structural h
end

/-! ## Compiling -/

namespace Script

def ofTokens (ts : List PlacedToken) : Except Error Script := do
  ofTree (← parseTokens ts)

theorem compile_of_tokenize {text : String} {ts : List PlacedToken} (h : tokenize text = .ok ts) :
    compile text = ofTokens (withoutComments ts) := by
  simp only [compile, parse, h]
  rfl

theorem ofTokens_eq_ok {ts : List PlacedToken} {script : Script} :
    ofTokens ts = .ok script ↔
      ReadsCommands ts script [] ∧ Script.nesting script ≤ Parser.maxNesting := by
  rw [ofTokens, bind_eq_ok]
  constructor
  · rintro ⟨tree, hparse, htree⟩
    obtain ⟨⟨hd⟩, hn⟩ := derives_of_parseTokens hparse
    obtain ⟨r, hr, hok⟩ := bind_eq_ok.1 htree
    obtain ⟨commands, hcommands, hr⟩ := bind_eq_ok.1 hr
    cases hr
    cases hok
    obtain ⟨hreads, hn'⟩ := hd.reads hcommands
    rw [Node.nesting, Node.nestingAll_singleton, Node.nesting, hn'] at hn
    exact ⟨hreads, hn⟩
  · rintro ⟨hreads, hn⟩
    obtain ⟨ns, hd, hr, hn'⟩ := hreads.derives
    refine ⟨.start [.commands ns], ?_, ?_⟩
    · refine parseTokens_of_derives (.start hd) ?_
      rw [Node.nesting, Node.nestingAll_singleton, Node.nesting, hn']
      exact hn
    · rw [ofTree, Reading.ofNode, hr]
      rfl

/-- A text compiles to the script its tokens stand for, if it is not nested too deep. -/
theorem compile_eq_ok {text : String} {script : Script} :
    compile text = .ok script ↔ ∃ ts, tokenize text = .ok ts ∧
      ReadsCommands (withoutComments ts) script [] ∧ Script.nesting script ≤ Parser.maxNesting := by
  constructor
  · intro h
    cases hts : tokenize text with
    | error e =>
      simp only [compile, parse, hts] at h
      cases h
    | ok ts =>
      rw [compile_of_tokenize hts] at h
      exact ⟨ts, rfl, ofTokens_eq_ok.1 h⟩
  · rintro ⟨ts, hts, hreads⟩
    rw [compile_of_tokenize hts]
    exact ofTokens_eq_ok.2 hreads

end Script

end MailSieve
