import MailSieve.Proofs.Grammar
import MailSieve.Tree.Parser

/-!
# The parser reads what the grammar derives

Reading the tokens of a derivation takes the machine to the state that holds the
derived nodes, if they are not nested too deep.
-/

namespace MailSieve

/-! ## Nesting -/

namespace Node

theorem nestingAll_append : ∀ ns ms : List Node, nestingAll (ns ++ ms) = max (nestingAll ns) (nestingAll ms)
  | [], ms => by simp [nestingAll]
  | n :: ns, ms => by
    rw [List.cons_append, nestingAll, nestingAll, nestingAll_append ns ms, Nat.max_assoc]

theorem nestingAll_singleton (n : Node) : nestingAll [n] = n.nesting := by
  simp [nestingAll]

theorem nesting_test (name : String) (p : Position) (ns : List Node) :
    (Node.test name p [.arguments ns]).nesting = nestingAll ns + 1 := by
  rw [nesting, nestingAll_singleton, nesting]

theorem nesting_command (name : String) (p : Position) (ns cs : List Node) :
    (Node.command name p [.arguments ns, .block [.commands cs]]).nesting =
      max (nestingAll ns) (nestingAll cs + 1) := by
  rw [nesting, nestingAll, nestingAll_singleton, nesting, nesting, nestingAll_singleton, nesting]

end Node

theorem DerivesString.nesting {ts us : List PlacedToken} {n : Node} (h : DerivesString ts n us) :
    n.nesting = 0 := by
  cases h <;> rfl

theorem DerivesStrings.nestingAll {ts us : List PlacedToken} {ns : List Node} (h : DerivesStrings ts ns us) :
    Node.nestingAll ns = 0 := by
  induction h with
  | one h => rw [Node.nestingAll_singleton, h.nesting]
  | more h hs ih => rw [Node.nestingAll, h.nesting, ih]; rfl

theorem DerivesArgument.nesting {ts us : List PlacedToken} {n : Node} (h : DerivesArgument ts n us) :
    n.nesting = 0 := by
  cases h with
  | string h => rw [Node.nesting, Node.nestingAll_singleton, h.nesting]
  | number | tag => rfl
  | stringList hs => rw [Node.nesting, Node.nestingAll_singleton, Node.nesting, hs.nestingAll]

theorem DerivesPlain.nestingAll {ts us : List PlacedToken} {ns : List Node} (h : DerivesPlain ts ns us) :
    Node.nestingAll ns = 0 := by
  induction h with
  | nil => rfl
  | cons h hs ih => rw [Node.nestingAll, h.nesting, ih]; rfl

namespace Parser

/-! ## Reading derived tokens -/

section
variable {state next : State} {holder : Holder} {t : PlacedToken} {ts us vs : List PlacedToken} {n : Node}
  {ns ms : List Node} {p q : Position}

theorem run_cons (h : step state t = .ok next) : run state (t :: ts) = run next ts := by
  simp only [run, h]

theorem nested_eq_ok {depth : Nat} (h : depth ≤ maxNesting) : nested depth p next = .ok next := if_pos h

def Sequence.pushAll (sequence : Sequence) (ns : List Node) : Sequence := ns.foldl Sequence.push sequence

theorem Sequence.depth_push (sequence : Sequence) (n : Node) : (sequence.push n).depth = sequence.depth := by
  cases sequence <;> rfl

theorem Sequence.pushAll_block (outer : Sequence) (name : String) (arguments commands : List Node) :
    (Sequence.block outer name p arguments q commands).pushAll ns =
      .block outer name p arguments q (commands ++ ns) := by
  induction ns generalizing commands with
  | nil => simp [pushAll]
  | cons n ns ih =>
    show (Sequence.block outer name p arguments q (commands ++ [n])).pushAll ns = _
    rw [ih, List.append_assoc, List.singleton_append]

theorem Sequence.pushAll_top (commands : List Node) :
    (Sequence.top commands).pushAll ns = .top (commands ++ ns) := by
  induction ns generalizing commands with
  | nil => simp [pushAll]
  | cons n ns ih =>
    show (Sequence.top (commands ++ [n])).pushAll ns = _
    rw [ih, List.append_assoc, List.singleton_append]

def Holder.pushAll (holder : Holder) (ns : List Node) : Holder := ns.foldl Holder.push holder

theorem Holder.pushAll_append : holder.pushAll (ns ++ ms) = (holder.pushAll ns).pushAll ms :=
  List.foldl_append

theorem Holder.close_push (n : Node) : (holder.push n).close ms = holder.close (n :: ms) := by
  cases holder <;> simp [push, close]

theorem Holder.close_pushAll : (holder.pushAll ns).close ms = holder.close (ns ++ ms) := by
  induction ns generalizing holder with
  | nil => rfl
  | cons n ns ih =>
    show ((holder.push n).pushAll ns).close ms = _
    rw [ih, close_push]
    rfl

theorem Holder.depth_push (n : Node) : (holder.push n).depth = holder.depth := by
  cases holder <;> rfl

theorem Holder.depth_pushAll : (holder.pushAll ns).depth = holder.depth := by
  induction ns generalizing holder with
  | nil => rfl
  | cons n ns ih =>
    show ((holder.push n).pushAll ns).depth = holder.depth
    rw [ih, depth_push]

/-- Once its arguments end, only what is left open by that matters about a holder. -/
theorem run_full {holder' : Holder} (h : holder.close [] = holder'.close []) (hts : EndsArguments ts) :
    run (.full holder) ts = run (.full holder') ts := by
  cases hts <;> simp only [run, step, h]

theorem run_closed {closed : Closed} (hc : holder.close [] = closed) (h : stepClosed closed t = .ok next) :
    run (.full holder) (t :: ts) = run next ts :=
  run_cons (by rw [step, hc, h])

theorem run_ended (hts : EndsArguments ts) : run (.arguments holder) ts = run (.full holder) ts := by
  cases hts <;> rfl

theorem run_strings {strings : List Node} (h : DerivesStrings ts ns us)
    (hus : us = ⟨.punct .closeBracket, q⟩ :: vs) :
    run (.string holder strings) ts =
      run (.arguments (holder.push (.argument [.stringList (strings ++ ns)]))) vs := by
  have read : ∀ {ts n us strings}, DerivesString ts n us →
      run (.string holder strings) ts = run (.stringEnd holder (strings ++ [n])) us := by
    intro ts n us strings h
    cases h <;> exact run_cons rfl
  induction h generalizing strings with
  | one h =>
    subst hus
    rw [read h]
    exact run_cons rfl
  | more h hs ih =>
    rw [read h, run_cons rfl, ih hus, List.append_assoc, List.singleton_append]

theorem run_argument (h : DerivesArgument ts n us) :
    run (.arguments holder) ts = run (.arguments (holder.push n)) us := by
  cases h with
  | string h => cases h <;> exact run_cons rfl
  | number | tag => exact run_cons rfl
  | stringList hs => exact (run_cons rfl).trans (run_strings hs rfl)

theorem run_plain (h : DerivesPlain ts ns us) :
    run (.arguments holder) ts = run (.arguments (holder.pushAll ns)) us := by
  induction h generalizing holder with
  | nil => rfl
  | cons h hs ih =>
    rw [run_argument h, ih]
    rfl

theorem run_identifier {name : String} (hd : holder.depth + 1 ≤ maxNesting) :
    run (.arguments holder) (⟨.identifier name, p⟩ :: ts) = run (.arguments (.test holder name p [])) ts :=
  run_cons (nested_eq_ok hd)

theorem run_openParen (hd : holder.depth + 1 ≤ maxNesting) :
    run (.arguments holder) (⟨.punct .openParen, p⟩ :: ts) = run (.test holder []) ts :=
  run_cons (nested_eq_ok hd)

theorem Holder.close_test (name : String) :
    ((Holder.test holder name p []).pushAll ns).close [] =
      (holder.push (.test name p [.arguments ns])).close [] := by
  rw [close_pushAll, close_push, List.append_nil]
  rfl

theorem Holder.close_listed (name : String) {tests : List Node} :
    ((Holder.listed holder tests name p []).pushAll ns).close [] =
      .testList holder (tests ++ [.test name p [.arguments ns]]) := by
  rw [close_pushAll, List.append_nil]
  rfl

theorem Holder.close_command (name : String) {sequence : Sequence} :
    ((Holder.command sequence name p []).pushAll ns).close [] = .command sequence name p ns := by
  rw [close_pushAll, List.append_nil]
  rfl

end

mutual
theorem run_arguments {ts us : List PlacedToken} {ns : List Node} (h : DerivesArguments ts ns us)
    (hus : EndsArguments us) {holder : Holder} (hd : holder.depth + Node.nestingAll ns ≤ maxNesting) :
    run (.arguments holder) ts = run (.full (holder.pushAll ns)) us := by
  match h with
  | .arguments hp hl =>
    rw [Node.nestingAll_append, hp.nestingAll, Nat.zero_max, ← Holder.depth_pushAll] at hd
    rw [run_plain hp, run_last hl hus hd, Holder.pushAll_append]
termination_by structural h

theorem run_last {ts us : List PlacedToken} {ms : List Node} (h : DerivesLast ts ms us)
    (hus : EndsArguments us) {holder : Holder} (hd : holder.depth + Node.nestingAll ms ≤ maxNesting) :
    run (.arguments holder) ts = run (.full (holder.pushAll ms)) us := by
  match h with
  | .none => exact run_ended hus
  | .test (@DerivesTest.test name p _ ns _ ha) =>
    rw [Node.nestingAll_singleton, Node.nesting_test] at hd
    have hd' : (Holder.test holder name p []).depth + Node.nestingAll ns ≤ maxNesting := by
      show holder.depth + 1 + _ ≤ _
      omega
    -- the arguments of the test end where those of its holder do
    rw [run_identifier (by omega), run_arguments ha hus hd']
    exact run_full (Holder.close_test name) hus
  | .testList hs =>
    rw [Node.nestingAll_singleton, Node.nesting] at hd
    rw [run_openParen (by omega), run_tests hs rfl (by omega)]
    rfl
termination_by structural h

/-- Reads a test list after its opening parenthesis and the tests `tests`. -/
theorem run_tests {ts us vs : List PlacedToken} {ns : List Node} {q : Position} (h : DerivesTests ts ns us)
    (hus : us = ⟨.punct .closeParen, q⟩ :: vs) {within : Holder} {tests : List Node}
    (hd : within.depth + Node.nestingAll ns ≤ maxNesting) :
    run (.test within tests) ts = run (.full (within.push (.testList (tests ++ ns)))) vs := by
  -- a test of a list is as deep as the list
  have front : ∀ {name p as}, within.depth + (Node.test name p [.arguments as]).nesting ≤ maxNesting →
      (Holder.listed within tests name p []).depth + Node.nestingAll as ≤ maxNesting := by
    intro name p as hd
    rw [Node.nesting_test] at hd
    show within.depth + 1 + _ ≤ _
    omega
  match h with
  | .one (@DerivesTest.test name p _ as _ ha) =>
    rw [Node.nestingAll_singleton] at hd
    rw [run_cons rfl, run_arguments ha (hus ▸ .closeParen) (front hd), hus]
    exact run_closed (Holder.close_listed name) rfl
  | .more (@DerivesTest.test name p _ as _ ha) hs =>
    rw [Node.nestingAll] at hd
    have hfront : within.depth + (Node.test name p [.arguments as]).nesting ≤ maxNesting := by omega
    rw [run_cons rfl, run_arguments ha .comma (front hfront), run_closed (Holder.close_listed name) rfl,
      run_tests hs hus (by omega), List.append_assoc, List.singleton_append]
termination_by structural h
end

mutual
theorem run_commands {ts us : List PlacedToken} {cs : List Node} (h : DerivesCommands ts cs us)
    {sequence : Sequence} (hd : sequence.depth + Node.nestingAll cs ≤ maxNesting) :
    run (.commands sequence) ts = run (.commands (sequence.pushAll cs)) us := by
  match h with
  | .nil => rfl
  | @DerivesCommands.cons _ c _ cs _ h hs =>
    rw [Node.nestingAll] at hd
    have hd' : (sequence.push c).depth + Node.nestingAll cs ≤ maxNesting := by
      rw [Sequence.depth_push]
      omega
    rw [run_command h (by omega), run_commands hs hd']
    rfl
termination_by structural h

theorem run_command {ts us : List PlacedToken} {c : Node} (h : DerivesCommand ts c us)
    {sequence : Sequence} (hd : sequence.depth + c.nesting ≤ maxNesting) :
    run (.commands sequence) ts = run (.commands (sequence.push c)) us := by
  match h with
  | @DerivesCommand.simple name p _ ns _ _ ha =>
    rw [Node.nesting, Node.nestingAll_singleton, Node.nesting] at hd
    have hargs : (Holder.command sequence name p []).depth + Node.nestingAll ns ≤ maxNesting := hd
    rw [run_cons rfl, run_arguments ha .semicolon hargs]
    exact run_closed (Holder.close_command name) rfl
  | @DerivesCommand.block name p _ ns q _ cs _ _ ha hs =>
    rw [Node.nesting_command] at hd
    have hargs : (Holder.command sequence name p []).depth + Node.nestingAll ns ≤ maxNesting := by
      show sequence.depth + _ ≤ _
      omega
    have hblock : (Sequence.block sequence name p ns q []).depth + Node.nestingAll cs ≤ maxNesting := by
      show sequence.depth + 1 + _ ≤ _
      omega
    have hopen : stepClosed (.command sequence name p ns) ⟨.punct .openBrace, q⟩ =
        .ok (.commands (.block sequence name p ns q [])) := nested_eq_ok (by omega)
    rw [run_cons rfl, run_arguments ha .openBrace hargs, run_closed (Holder.close_command name) hopen,
      run_commands hs hblock, Sequence.pushAll_block, List.nil_append]
    exact run_cons rfl
termination_by structural h
end

end Parser

/-- A tree that is not nested too deep is found. -/
theorem parseTokens_of_derives {ts : List PlacedToken} {tree : Node} (h : Derives ts tree)
    (hd : tree.nesting ≤ Parser.maxNesting) : parseTokens ts = .ok tree := by
  cases h with
  | @start cs h =>
    rw [Node.nesting, Node.nestingAll_singleton, Node.nesting] at hd
    have htop : (Parser.Sequence.top []).depth + Node.nestingAll cs ≤ Parser.maxNesting := by
      show 0 + _ ≤ _
      omega
    rw [parseTokens, Parser.run_commands h htop, Parser.Sequence.pushAll_top]
    rfl

end MailSieve
