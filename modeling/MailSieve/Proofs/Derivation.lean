import MailSieve.Proofs.Parsing

/-!
# What the parser reads is derived

Every state the machine gets to is accounted for by derivations of the tokens read
so far (`State.Reads`), one for each thing that is still open. So a tree at the end
has been derived, and together with the other direction the parser accepts exactly
the grammar, as far as the depth of nesting allows.
-/

namespace MailSieve

/-! ## Sequences that grow at the end -/

theorem DerivesPlain.snoc {ts us vs : List PlacedToken} {ns : List Node} {n : Node}
    (h : DerivesPlain ts ns us) (ha : DerivesArgument us n vs) : DerivesPlain ts (ns ++ [n]) vs := by
  induction h with
  | nil => exact .cons ha .nil
  | cons h hs ih => exact .cons h (ih ha)

theorem DerivesCommands.snoc {ts us vs : List PlacedToken} {cs : List Node} {c : Node}
    (h : DerivesCommands ts cs us) (hc : DerivesCommand us c vs) : DerivesCommands ts (cs ++ [c]) vs := by
  match h with
  | .nil => exact .cons hc .nil
  | .cons h hs => exact .cons h (hs.snoc hc)
termination_by structural h

inductive Listed (item : List PlacedToken → Node → List PlacedToken → Prop) :
    List PlacedToken → List Node → List PlacedToken → Prop
  | nil {ts} : Listed item ts [] ts
  | snoc {ts ns us n p vs} (hs : Listed item ts ns us) (h : item us n (⟨.punct .comma, p⟩ :: vs)) :
      Listed item ts (ns ++ [n]) vs

theorem Listed.strings {ts us vs : List PlacedToken} {ns ms : List Node} (h : Listed DerivesString ts ns us)
    (hs : DerivesStrings us ms vs) : DerivesStrings ts (ns ++ ms) vs := by
  induction h generalizing ms with
  | nil => exact hs
  | snoc _ h ih =>
    rw [List.append_assoc]
    exact ih (.more h hs)

theorem Listed.tests {ts us vs : List PlacedToken} {ns ms : List Node} (h : Listed DerivesTest ts ns us)
    (hs : DerivesTests us ms vs) : DerivesTests ts (ns ++ ms) vs := by
  induction h generalizing ms with
  | nil => exact hs
  | snoc _ h ih =>
    rw [List.append_assoc]
    exact ih (.more h hs)

namespace Parser

/-! ## What the parts of a state stand for -/

/-- The sequence has been read from `all`, as far as the tokens ahead. -/
inductive Sequence.Reads (all : List PlacedToken) : Sequence → List PlacedToken → Prop
  | top {cs ts} (h : DerivesCommands all cs ts) (hd : Node.nestingAll cs ≤ maxNesting) :
      Reads all (.top cs) ts
  | block {outer name p ts as brace us cs vs} (houter : Reads all outer (⟨.identifier name, p⟩ :: ts))
      (ha : DerivesArguments ts as (⟨.punct .openBrace, brace⟩ :: us))
      (hda : outer.depth + Node.nestingAll as ≤ maxNesting)
      (h : DerivesCommands us cs vs) (hd : outer.depth + 1 + Node.nestingAll cs ≤ maxNesting) :
      Reads all (.block outer name p as brace cs) vs

def Holder.arguments : Holder → List Node
  | .command _ _ _ arguments | .test _ _ _ arguments | .listed _ _ _ _ arguments => arguments

inductive Holder.Opens (all : List PlacedToken) : Holder → List PlacedToken → Prop
  | command {within name p as ts} (hw : within.Reads all (⟨.identifier name, p⟩ :: ts)) :
      Opens all (.command within name p as) ts
  | test {within name p as us ts} (hw : Opens all within us)
      (hp : DerivesPlain us within.arguments (⟨.identifier name, p⟩ :: ts))
      (hd : within.depth + 1 ≤ maxNesting) : Opens all (.test within name p as) ts
  | listed {within tests name p as us q vs ts} (hw : Opens all within us)
      (hp : DerivesPlain us within.arguments (⟨.punct .openParen, q⟩ :: vs))
      (hs : Listed DerivesTest vs tests (⟨.identifier name, p⟩ :: ts))
      (hd : within.depth + max 1 (Node.nestingAll tests) ≤ maxNesting) :
      Opens all (.listed within tests name p as) ts

def Holder.Reads (all : List PlacedToken) (holder : Holder) (ts : List PlacedToken) : Prop :=
  ∃ us, holder.Opens all us ∧ DerivesPlain us holder.arguments ts

def Holder.Ends (all : List PlacedToken) (holder : Holder) (extra : List Node) (ts : List PlacedToken) :
    Prop :=
  ∃ us, holder.Opens all us ∧ DerivesArguments us (holder.arguments ++ extra) ts ∧
    holder.depth + Node.nestingAll (holder.arguments ++ extra) ≤ maxNesting

def Closed.Reads (all : List PlacedToken) : Closed → List PlacedToken → Prop
  | .command within name p as, ts => ∃ us, within.Reads all (⟨.identifier name, p⟩ :: us) ∧
      DerivesArguments us as ts ∧ within.depth + Node.nestingAll as ≤ maxNesting
  | .testList within tests, ts => ∃ q us, within.Reads all (⟨.punct .openParen, q⟩ :: us) ∧
      within.depth + max 1 (Node.nestingAll tests) ≤ maxNesting ∧
      ∃ ns n vs, tests = ns ++ [n] ∧ Listed DerivesTest us ns vs ∧ DerivesTest vs n ts

def State.Reads (all : List PlacedToken) : State → List PlacedToken → Prop
  | .commands sequence, ts => sequence.Reads all ts
  | .arguments holder, ts => holder.Reads all ts
  | .full holder, ts => holder.Ends all [] ts
  | .test within tests, ts => ∃ q us, within.Reads all (⟨.punct .openParen, q⟩ :: us) ∧
      within.depth + max 1 (Node.nestingAll tests) ≤ maxNesting ∧ Listed DerivesTest us tests ts
  | .string holder strings, ts => ∃ q us, holder.Reads all (⟨.punct .openBracket, q⟩ :: us) ∧
      Listed DerivesString us strings ts
  | .stringEnd holder strings, ts => ∃ q us, holder.Reads all (⟨.punct .openBracket, q⟩ :: us) ∧
      ∃ ns n vs, strings = ns ++ [n] ∧ Listed DerivesString us ns vs ∧ DerivesString vs n ts

section
variable {all ts us : List PlacedToken} {sequence : Sequence} {holder : Holder} {n : Node}

theorem Sequence.Reads.depth_le (h : sequence.Reads all ts) : sequence.depth ≤ maxNesting := by
  cases h with
  | top => exact Nat.zero_le _
  | block houter ha hda h hd => exact Nat.le_trans (Nat.le_add_right _ _) hd

theorem Sequence.Reads.push (h : sequence.Reads all ts) (hc : DerivesCommand ts n us)
    (hd : sequence.depth + n.nesting ≤ maxNesting) : (sequence.push n).Reads all us := by
  cases h with
  | top h hn =>
    refine .top (h.snoc hc) ?_
    rw [Node.nestingAll_append, Node.nestingAll_singleton]
    simp only [Sequence.depth] at hd
    omega
  | block houter ha hda h hn =>
    refine .block houter ha hda (h.snoc hc) ?_
    rw [Node.nestingAll_append, Node.nestingAll_singleton]
    simp only [Sequence.depth] at hd
    omega

theorem Holder.arguments_push : (holder.push n).arguments = holder.arguments ++ [n] := by
  cases holder <;> rfl

theorem Holder.Opens.push (h : holder.Opens all ts) : (holder.push n).Opens all ts := by
  cases h with
  | command hw => exact .command hw
  | test hw hp hd => exact .test hw hp hd
  | listed hw hp hs hd => exact .listed hw hp hs hd

theorem Holder.Opens.depth_le (h : holder.Opens all ts) : holder.depth ≤ maxNesting := by
  cases h with
  | command hw => exact hw.depth_le
  | test hw hp hd => exact hd
  | listed hw hp hs hd =>
    simp only [Holder.depth]
    omega

theorem Holder.Reads.depth_le (h : holder.Reads all ts) : holder.depth ≤ maxNesting := by
  obtain ⟨us, hopens, -⟩ := h
  exact hopens.depth_le

theorem Holder.Reads.push (h : holder.Reads all ts) (ha : DerivesArgument ts n us) :
    (holder.push n).Reads all us := by
  obtain ⟨vs, hopens, hp⟩ := h
  refine ⟨vs, hopens.push, ?_⟩
  rw [Holder.arguments_push]
  exact hp.snoc ha

theorem Holder.Reads.ends {ms : List Node} (h : holder.Reads all ts) (hl : DerivesLast ts ms us)
    (hd : holder.depth + Node.nestingAll ms ≤ maxNesting) : holder.Ends all ms us := by
  obtain ⟨vs, hopens, hp⟩ := h
  refine ⟨vs, hopens, .arguments hp hl, ?_⟩
  rw [Node.nestingAll_append, hp.nestingAll, Nat.zero_max]
  exact hd

theorem Holder.Ends.push (h : holder.Ends all [n] ts) : (holder.push n).Ends all [] ts := by
  obtain ⟨us, hopens, ha, hd⟩ := h
  refine ⟨us, hopens.push, ?_⟩
  rw [List.append_nil, Holder.arguments_push, Holder.depth_push]
  exact ⟨ha, hd⟩

theorem Holder.Ends.close : ∀ {holder : Holder} {extra : List Node}, holder.Ends all extra ts →
    (holder.close extra).Reads all ts
  | .command .., _, ⟨us, .command hw, ha, hd⟩ => ⟨us, hw, ha, hd⟩
  | .test within name p as, extra, ⟨us, .test hw hp hdw, ha, hd⟩ => by
    -- the test is the last argument of the holder around it, which ends as well
    have hreads : within.Reads all (⟨.identifier name, p⟩ :: us) := ⟨_, hw, hp⟩
    refine (hreads.ends (.test (.test ha)) ?_).close
    rw [Node.nestingAll_singleton, Node.nesting_test]
    simp only [Holder.depth, Holder.arguments] at hd ⊢
    omega
  | .listed within tests name p as, extra, ⟨us, .listed hw hp hs hdw, ha, hd⟩ => by
    refine ⟨_, _, ⟨_, hw, hp⟩, ?_, tests, _, _, rfl, hs, .test ha⟩
    rw [Node.nestingAll_append, Node.nestingAll_singleton, testNode, Node.nesting_test]
    simp only [Holder.depth, Holder.arguments] at hd ⊢
    omega

/-! ## Steps -/

variable {state next : State} {closed : Closed} {t : PlacedToken}

theorem unexpected_ne_ok {expected : Expected} : unexpected expected t ≠ .ok state := nofun

theorem of_nested_eq_ok {depth : Nat} {p : Position} (h : nested depth p state = .ok next) :
    depth ≤ maxNesting ∧ state = next := by
  unfold nested at h
  split at h
  · next hd => exact ⟨hd, Except.ok.inj h⟩
  · cases h

theorem Closed.Reads.step (h : closed.Reads all (t :: ts)) (hstep : stepClosed closed t = .ok next) :
    next.Reads all ts := by
  obtain ⟨token, p⟩ := t
  cases closed with
  | command within name q as =>
    obtain ⟨us, hw, ha, hd⟩ := h
    simp only [stepClosed] at hstep
    split at hstep
    · cases hstep
      refine hw.push (.simple ha) ?_
      rw [Node.nesting, Node.nestingAll_singleton, Node.nesting]
      exact hd
    · obtain ⟨hdb, rfl⟩ := of_nested_eq_ok hstep
      exact .block hw ha hd .nil hdb
    · exact absurd hstep unexpected_ne_ok
  | testList within tests =>
    obtain ⟨q, us, hw, hd, ns, n, vs, rfl, hs, h⟩ := h
    simp only [stepClosed] at hstep
    split at hstep
    · cases hstep
      exact ⟨q, us, hw, hd, hs.snoc h⟩
    · cases hstep
      refine (hw.ends (.testList (hs.tests (.one h))) ?_).push
      rw [Node.nestingAll_singleton, Node.nesting]
      exact hd
    · exact absurd hstep unexpected_ne_ok

theorem Holder.Reads.step (h : holder.Reads all (t :: ts)) (hstep : step (.arguments holder) t = .ok next) :
    next.Reads all ts := by
  -- for a token that no argument begins with
  have hend : holder.Ends all [] (t :: ts) := h.ends .none h.depth_le
  obtain ⟨token, p⟩ := t
  cases token with
  | quoted literal => cases hstep; exact h.push (.string .quoted)
  | multiline literal => cases hstep; exact h.push (.string .multiline)
  | number literal => cases hstep; exact h.push .number
  | tag name => cases hstep; exact h.push .tag
  | identifier name =>
    obtain ⟨hd, rfl⟩ := of_nested_eq_ok hstep
    obtain ⟨us, hopens, hp⟩ := h
    exact ⟨ts, .test hopens hp hd, .nil⟩
  | punct c =>
    cases c with
    | openBracket => cases hstep; exact ⟨p, ts, h, .nil⟩
    | openParen =>
      obtain ⟨hd, rfl⟩ := of_nested_eq_ok hstep
      exact ⟨p, ts, h, hd, .nil⟩
    | _ => exact hend.close.step hstep
  | comment _ | blockComment _ => exact hend.close.step hstep

theorem State.Reads.step (h : state.Reads all (t :: ts)) (hstep : step state t = .ok next) :
    next.Reads all ts := by
  cases state with
  | commands sequence =>
    obtain ⟨token, p⟩ := t
    simp only [Parser.step] at hstep
    split at hstep
    · cases hstep
      exact ⟨ts, .command h, .nil⟩
    · split at hstep
      · exact absurd hstep unexpected_ne_ok
      · cases hstep
        cases h with
        | block houter ha hda h hd =>
          refine houter.push (.block ha h) ?_
          rw [Node.nesting_command]
          omega
    · exact absurd hstep unexpected_ne_ok
  | arguments holder => exact Holder.Reads.step h hstep
  | full holder => exact (Holder.Ends.close h).step hstep
  | test within tests =>
    obtain ⟨q, us, ⟨vs, hopens, hp⟩, hd, hs⟩ := h
    obtain ⟨token, p⟩ := t
    simp only [Parser.step] at hstep
    split at hstep
    · cases hstep
      exact ⟨ts, .listed hopens hp hs hd, .nil⟩
    · exact absurd hstep unexpected_ne_ok
  | string holder strings =>
    obtain ⟨q, us, hw, hs⟩ := h
    obtain ⟨token, p⟩ := t
    simp only [Parser.step] at hstep
    split at hstep
    · cases hstep
      exact ⟨q, us, hw, strings, _, _, rfl, hs, .quoted⟩
    · cases hstep
      exact ⟨q, us, hw, strings, _, _, rfl, hs, .multiline⟩
    · exact absurd hstep unexpected_ne_ok
  | stringEnd holder strings =>
    obtain ⟨q, us, hw, ns, n, vs, rfl, hs, h⟩ := h
    obtain ⟨token, p⟩ := t
    simp only [Parser.step] at hstep
    split at hstep
    · cases hstep
      exact ⟨q, us, hw, hs.snoc h⟩
    · cases hstep
      exact hw.push (.stringList (hs.strings (.one h)))
    · exact absurd hstep unexpected_ne_ok

theorem State.Reads.run {final : State} (h : state.Reads all ts) (hrun : Parser.run state ts = .ok final) :
    final.Reads all [] := by
  induction ts generalizing state with
  | nil => cases hrun; exact h
  | cons t ts ih =>
    rw [Parser.run] at hrun
    split at hrun
    · cases hrun
    · next next hstep => exact ih (h.step hstep) hrun

theorem State.Reads.finish {tree : Node} (h : state.Reads all []) (hfin : Parser.finish state = .ok tree) :
    Derives all tree ∧ tree.nesting ≤ maxNesting := by
  unfold Parser.finish at hfin
  split at hfin
  · cases hfin
    cases h with
    | top h hd =>
      refine ⟨.start h, ?_⟩
      rw [Node.nesting, Node.nestingAll_singleton, Node.nesting]
      exact hd
  · cases hfin
  · split at hfin <;> cases hfin
  · split at hfin <;> cases hfin
  · cases hfin
  · cases hfin
  · cases hfin

end

end Parser

theorem derives_of_parseTokens {ts : List PlacedToken} {tree : Node} (h : parseTokens ts = .ok tree) :
    Derives ts tree ∧ tree.nesting ≤ Parser.maxNesting := by
  unfold parseTokens at h
  split at h
  · cases h
  · next state hrun =>
    have hstart : (Parser.State.commands (.top [])).Reads ts ts := .top .nil (Nat.zero_le _)
    exact (hstart.run hrun).finish h

/-- The parser accepts exactly the grammar, up to the depth of nesting it allows, and
the grammar is unambiguous. -/
theorem parse_eq_ok_iff_derives (text : String) (tokens : List PlacedToken)
    (htext : tokenize text = .ok tokens) :
    (∀ tree, parse text = .ok tree ↔
      Derives (withoutComments tokens) tree ∧ tree.nesting ≤ Parser.maxNesting) ∧
    ∀ ts tree tree', Derives ts tree → Derives ts tree' → tree = tree' := by
  refine ⟨fun tree => ?_, fun ts tree tree' => Derives.unique⟩
  rw [parse, htext]
  constructor
  · exact derives_of_parseTokens
  · rintro ⟨h, hd⟩
    exact parseTokens_of_derives h hd

def listedTests : String := "if anyof (a [\"x\"], not b) \x7b keep; \x7d # end"

def listedTestsTokens : List PlacedToken := [
  ⟨.identifier "if", ⟨1, 1⟩⟩, ⟨.identifier "anyof", ⟨1, 4⟩⟩, ⟨.punct .openParen, ⟨1, 10⟩⟩,
  ⟨.identifier "a", ⟨1, 11⟩⟩, ⟨.punct .openBracket, ⟨1, 13⟩⟩, ⟨.quoted "\"x\"", ⟨1, 14⟩⟩,
  ⟨.punct .closeBracket, ⟨1, 17⟩⟩, ⟨.punct .comma, ⟨1, 18⟩⟩, ⟨.identifier "not", ⟨1, 20⟩⟩,
  ⟨.identifier "b", ⟨1, 24⟩⟩, ⟨.punct .closeParen, ⟨1, 25⟩⟩, ⟨.punct .openBrace, ⟨1, 27⟩⟩,
  ⟨.identifier "keep", ⟨1, 29⟩⟩, ⟨.punct .semicolon, ⟨1, 33⟩⟩, ⟨.punct .closeBrace, ⟨1, 35⟩⟩,
  ⟨.comment "end", ⟨1, 37⟩⟩]

def listedTestsTree : Node :=
  .start [.commands [.command "if" ⟨1, 1⟩ [
    .arguments [.test "anyof" ⟨1, 4⟩ [.arguments [.testList [
      .test "a" ⟨1, 11⟩ [.arguments [.argument [.stringList [.string "\"x\""]]]],
      .test "not" ⟨1, 20⟩ [.arguments [.test "b" ⟨1, 24⟩ [.arguments []]]]]]]],
    .block [.commands [.command "keep" ⟨1, 29⟩ [.arguments []]]]]]]

theorem parse_eq_ok_iff_derives_listedTests :
    tokenize listedTests = .ok listedTestsTokens ∧ parse listedTests = .ok listedTestsTree ∧
      Derives (withoutComments listedTestsTokens) listedTestsTree ∧ listedTestsTree.nesting = 3 := by
  have htext : tokenize listedTests = .ok listedTestsTokens := by cbv
  have htree : parse listedTests = .ok listedTestsTree := by
    rw [parse, htext]
    rfl
  have hderives := ((parse_eq_ok_iff_derives listedTests listedTestsTokens htext).1 listedTestsTree).1 htree
  exact ⟨htext, htree, hderives.1, by rfl⟩

end MailSieve
