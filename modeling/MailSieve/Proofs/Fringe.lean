import MailSieve.Proofs.Preorder
import MailSieve.Proofs.Reading

/-!
# The fringe of a script

Read from left to right, a script gives back the tokens it was compiled from: the name of every
command and test where its identifier stands, and after the name the values of its arguments.
Brackets, commas and the like are gone, and nothing else is.
-/

namespace MailSieve

/-! ## Scripts -/

inductive Value
  | string (text : String)
  | number (value : Nat)
  | tag (name : String)
deriving DecidableEq

def Argument.values : Argument → List Value
  | .strings items => items.map .string
  | .number value => [.number value]
  | .tag name => [.tag name]

structure Use where
  name : String
  arguments : List Argument
  position : Position

namespace Use

def heading (u : Use) : String × Position := (u.name, u.position)

def values (u : Use) : List Value := u.arguments.flatMap Argument.values

end Use

def Test.use (t : Test) : Use := ⟨t.name, t.arguments, t.position⟩

def Command.uses (c : Command) : List Use :=
  ⟨c.name, c.arguments, c.position⟩ :: (Test.preorder? c.tests).map Test.use

/-- The commands and tests of a script: a command, then its tests, then those of its block. -/
def Script.uses (script : Script) : List Use :=
  (Script.preorder script).flatMap Command.uses

/-! ## Tokens -/

def PlacedToken.heading? (t : PlacedToken) : Option (String × Position) :=
  match t.token with
  | .identifier name => some (name, t.position)
  | _ => none

/-- The value a token stands for, if it stands for one and can be read. -/
def Token.value? : Token → Option (Except LiteralFault Value)
  | .quoted literal | .multiline literal => some ((Literal.string literal).map .string)
  | .number literal => some ((Literal.number literal).map .number)
  | .tag name => some (.ok (.tag (Text.lowercase name)))
  | _ => none

/-! ## Names and values in one row -/

inductive Leaf
  | heading (name : String) (position : Position)
  | value (value : Value)

namespace Leaf

def heading? : Leaf → Option (String × Position)
  | heading name position => some (name, position)
  | value _ => none

def value? : Leaf → Option Value
  | heading _ _ => none
  | value v => some v

end Leaf

def Use.leaves (u : Use) : List Leaf :=
  .heading u.name u.position :: u.values.map .value

def PlacedToken.leaf? (t : PlacedToken) : Option (Except LiteralFault Leaf) :=
  match t.token with
  | .identifier name => some (.ok (.heading name t.position))
  | token => token.value?.map (·.map .value)

def Fringe (ts : List PlacedToken) (leaves : List Leaf) (us : List PlacedToken) : Prop :=
  ts.filterMap PlacedToken.leaf? = leaves.map .ok ++ us.filterMap PlacedToken.leaf?

namespace Fringe

variable {ts us vs : List PlacedToken} {ls ms : List Leaf} {t : PlacedToken}

theorem refl (ts : List PlacedToken) : Fringe ts [] ts := rfl

theorem trans (h : Fringe ts ls us) (h' : Fringe us ms vs) : Fringe ts (ls ++ ms) vs := by
  unfold Fringe at *
  rw [h, h', List.map_append, List.append_assoc]

theorem skip (ht : t.leaf? = none) (h : Fringe ts ls us) : Fringe (t :: ts) ls us := by
  unfold Fringe at *
  rw [List.filterMap_cons_none ht, h]

theorem leaf {l : Leaf} (ht : t.leaf? = some (.ok l)) (h : Fringe ts ls us) : Fringe (t :: ts) (l :: ls) us := by
  unfold Fringe at *
  rw [List.filterMap_cons_some ht, h, List.map_cons, List.cons_append]

/-- A token without a leaf that ends what is read. -/
theorem drop (h : Fringe ts ls (t :: us)) (ht : t.leaf? = none) : Fringe ts ls us := by
  unfold Fringe at *
  rw [h, List.filterMap_cons_none ht]

end Fringe

/-! ## What is read leaves a fringe -/

section
variable {ts us : List PlacedToken}

theorem ReadsString.fringe {s : String} (h : ReadsString ts s us) : Fringe ts [.value (.string s)] us := by
  cases h with
  | quoted h | multiline h =>
    apply Fringe.leaf _ (.refl us)
    simp only [PlacedToken.leaf?, Token.value?, h]
    rfl

theorem ReadsStrings.fringe {items : List String} (h : ReadsStrings ts items us) :
    Fringe ts ((items.map Value.string).map .value) us := by
  induction h with
  | one h => exact h.fringe
  | more h _ ih => exact (h.fringe.drop rfl).trans ih

theorem ReadsArgument.fringe {a : Argument} (h : ReadsArgument ts a us) : Fringe ts (a.values.map .value) us := by
  cases h with
  | string h => exact h.fringe
  | number h =>
    apply Fringe.leaf _ (.refl us)
    simp only [PlacedToken.leaf?, Token.value?, h]
    rfl
  | tag => exact .leaf rfl (.refl us)
  | stringList hs => exact .skip rfl (hs.fringe.drop rfl)

theorem ReadsPlain.fringe {as : List Argument} (h : ReadsPlain ts as us) :
    Fringe ts ((as.flatMap Argument.values).map .value) us := by
  induction h with
  | nil => exact .refl _
  | cons h _ ih =>
    rw [List.flatMap_cons, List.map_append]
    exact h.fringe.trans ih

end

def testLeaves (tests : List Test) : List Leaf :=
  tests.flatMap fun t => t.use.leaves

theorem testLeaves_append (ts us : List Test) : testLeaves (ts ++ us) = testLeaves ts ++ testLeaves us :=
  List.flatMap_append

mutual
theorem ReadsArguments.fringe {ts us : List PlacedToken} {as : List Argument} {tests : Option (List Test)}
    (h : ReadsArguments ts as tests us) :
    Fringe ts ((as.flatMap Argument.values).map .value ++ testLeaves (Test.preorder? tests)) us := by
  match h with
  | .arguments hp hl => exact hp.fringe.trans hl.fringe
termination_by structural h

theorem ReadsLast.fringe {ts us : List PlacedToken} {tests : Option (List Test)} (h : ReadsLast ts tests us) :
    Fringe ts (testLeaves (Test.preorder? tests)) us := by
  match h with
  | .none => exact .refl _
  | .test h =>
    rw [Test.preorder?, Test.preorderAll, Test.preorderAll, List.append_nil]
    exact h.fringe
  | .testList hs => exact .skip rfl (hs.fringe.drop rfl)
termination_by structural h

theorem ReadsTest.fringe {ts us : List PlacedToken} {t : Test} (h : ReadsTest ts t us) :
    Fringe ts (testLeaves t.preorder) us := by
  match h with
  | .test h =>
    rw [Test.preorder_eq]
    exact .leaf rfl h.fringe
termination_by structural h

theorem ReadsTests.fringe {ts us : List PlacedToken} {tests : List Test} (h : ReadsTests ts tests us) :
    Fringe ts (testLeaves (Test.preorderAll tests)) us := by
  match h with
  | .one h =>
    rw [Test.preorderAll, Test.preorderAll, List.append_nil]
    exact h.fringe
  | .more h hs =>
    rw [Test.preorderAll, testLeaves_append]
    exact (h.fringe.drop rfl).trans hs.fringe
termination_by structural h
end

def commandLeaves (commands : List Command) : List Leaf :=
  (commands.flatMap Command.uses).flatMap Use.leaves

theorem commandLeaves_append (cs ds : List Command) :
    commandLeaves (cs ++ ds) = commandLeaves cs ++ commandLeaves ds := by
  simp [commandLeaves]

theorem commandLeaves_preorder (c : Command) : commandLeaves c.preorder =
    .heading c.name c.position :: ((c.arguments.flatMap Argument.values).map .value ++
      testLeaves (Test.preorder? c.tests)) ++ commandLeaves (Script.blockPreorder c.block) := by
  simp [commandLeaves, Command.preorder_eq, Command.uses, Use.leaves, Use.values, testLeaves, List.flatMap_map]

mutual
theorem ReadsCommands.fringe {ts us : List PlacedToken} {commands : List Command}
    (h : ReadsCommands ts commands us) : Fringe ts (commandLeaves (Script.preorder commands)) us := by
  match h with
  | .nil => exact .refl _
  | .cons h hs =>
    rw [Script.preorder, commandLeaves_append]
    exact h.fringe.trans hs.fringe
termination_by structural h

theorem ReadsCommand.fringe {ts us : List PlacedToken} {c : Command} (h : ReadsCommand ts c us) :
    Fringe ts (commandLeaves c.preorder) us := by
  match h with
  | .simple h =>
    rw [commandLeaves_preorder]
    exact (Fringe.leaf rfl (h.fringe.drop rfl)).trans (.refl _)
  | .block h hs =>
    -- a block comes after the tests in the tokens and in the preorder
    rw [commandLeaves_preorder]
    exact (Fringe.leaf rfl (h.fringe.drop rfl)).trans (hs.fringe.drop rfl)
termination_by structural h
end

/-! ## Whole texts -/

theorem filterMap_leaf?_withoutComments (ts : List PlacedToken) :
    (withoutComments ts).filterMap PlacedToken.leaf? = ts.filterMap PlacedToken.leaf? := by
  unfold withoutComments
  rw [List.filterMap_filter]
  apply List.filterMap_congr
  rintro ⟨token, p⟩ _
  cases token <;> rfl

theorem Script.fringe_of_compile {text : String} {script : Script} (h : compile text = .ok script) :
    ∃ tokens, tokenize text = .ok tokens ∧
      tokens.filterMap PlacedToken.leaf? = ((uses script).flatMap Use.leaves).map .ok := by
  obtain ⟨tokens, htokens, hreads, -⟩ := compile_eq_ok.1 h
  have hfringe := hreads.fringe
  unfold Fringe at hfringe
  rw [filterMap_leaf?_withoutComments, List.filterMap_nil, List.append_nil] at hfringe
  exact ⟨tokens, htokens, hfringe⟩

theorem PlacedToken.heading?_eq (t : PlacedToken) :
    t.heading? = t.leaf?.bind fun r => r.toOption.bind Leaf.heading? := by
  obtain ⟨token, p⟩ := t
  cases token with
  | quoted literal | multiline literal =>
    simp only [heading?, leaf?, Token.value?]
    cases Literal.string literal <;> rfl
  | number literal =>
    simp only [heading?, leaf?, Token.value?]
    cases Literal.number literal <;> rfl
  | _ => rfl

/-- The value of a leaf. A literal that cannot be read stands for a value too. -/
def Leaf.read? : Except LiteralFault Leaf → Option (Except LiteralFault Value)
  | .ok l => l.value?.map .ok
  | .error fault => some (.error fault)

theorem PlacedToken.value?_eq (t : PlacedToken) : t.token.value? = t.leaf?.bind Leaf.read? := by
  obtain ⟨token, p⟩ := t
  cases token with
  | quoted literal | multiline literal =>
    simp only [leaf?, Token.value?]
    cases Literal.string literal <;> rfl
  | number literal =>
    simp only [leaf?, Token.value?]
    cases Literal.number literal <;> rfl
  | _ => rfl

theorem filterMap_heading?_leaves (us : List Use) :
    (us.flatMap Use.leaves).filterMap Leaf.heading? = us.map Use.heading := by
  induction us with
  | nil => rfl
  | cons u us ih =>
    have hvalues : (u.values.map Leaf.value).filterMap Leaf.heading? = [] := by
      rw [List.filterMap_map]
      exact List.filterMap_eq_nil_iff.2 fun _ _ => rfl
    rw [List.flatMap_cons, List.filterMap_append, ih, Use.leaves, List.filterMap_cons, hvalues]
    rfl

theorem filterMap_value?_leaves (us : List Use) :
    (us.flatMap Use.leaves).filterMap Leaf.value? = us.flatMap Use.values := by
  induction us with
  | nil => rfl
  | cons u us ih =>
    have hvalues : (u.values.map Leaf.value).filterMap Leaf.value? = u.values := by
      rw [List.filterMap_map]
      exact List.filterMap_some
    rw [List.flatMap_cons, List.filterMap_append, ih, Use.leaves, List.filterMap_cons, hvalues]
    rfl

/-- Nothing in a text is lost, doubled or moved when it is compiled: the names of the commands
and tests, where they stand, are the identifiers in order, and the values of their arguments
are the strings, numbers and tags in order, each as it is read. -/
theorem Script.compile_uses (text : String) (script : Script) (h : compile text = .ok script) :
    ∃ tokens, tokenize text = .ok tokens ∧
      (uses script).map Use.heading = tokens.filterMap PlacedToken.heading? ∧
      ((uses script).flatMap Use.values).map .ok = tokens.filterMap (·.token.value?) := by
  obtain ⟨tokens, htokens, hfringe⟩ := fringe_of_compile h
  refine ⟨tokens, htokens, ?_, ?_⟩
  · calc (uses script).map Use.heading
        = ((uses script).flatMap Use.leaves).filterMap Leaf.heading? := (filterMap_heading?_leaves _).symm
      _ = (tokens.filterMap PlacedToken.leaf?).filterMap fun r => r.toOption.bind Leaf.heading? := by
          rw [hfringe, List.filterMap_map]
          rfl
      _ = tokens.filterMap PlacedToken.heading? := by
          rw [List.filterMap_filterMap]
          exact List.filterMap_congr fun t _ => t.heading?_eq.symm
  · calc ((uses script).flatMap Use.values).map .ok
        = (((uses script).flatMap Use.leaves).filterMap Leaf.value?).map .ok := by
          rw [filterMap_value?_leaves]
      _ = (tokens.filterMap PlacedToken.leaf?).filterMap Leaf.read? := by
          rw [hfringe, List.map_filterMap, List.filterMap_map]
          rfl
      _ = tokens.filterMap (·.token.value?) := by
          rw [List.filterMap_filterMap]
          exact List.filterMap_congr fun t _ => t.value?_eq.symm

def bulkyLists : String :=
  "if anyof (size :OVER 2k, header \"to\" [\"a\", \"b\"]) \x7b # lists\n  fileinto \"Bulk\";\n\x7d"

def bulkyListsScript : Script := [
  ⟨"if", [], some [⟨"anyof", [], some [
      ⟨"size", [.tag ":over", .number 2048], none, ⟨1, 11⟩⟩,
      ⟨"header", [.strings ["to"], .strings ["a", "b"]], none, ⟨1, 26⟩⟩], ⟨1, 4⟩⟩],
    some [⟨"fileinto", [.strings ["Bulk"]], none, none, ⟨2, 3⟩⟩], ⟨1, 1⟩⟩]

theorem Script.compile_uses_bulkyLists :
    compile bulkyLists = .ok bulkyListsScript ∧ ∃ tokens, tokenize bulkyLists = .ok tokens ∧
      tokens.filterMap PlacedToken.heading? =
        [("if", ⟨1, 1⟩), ("anyof", ⟨1, 4⟩), ("size", ⟨1, 11⟩), ("header", ⟨1, 26⟩), ("fileinto", ⟨2, 3⟩)] ∧
      tokens.filterMap (·.token.value?) = [.ok (.tag ":over"), .ok (.number 2048), .ok (.string "to"),
        .ok (.string "a"), .ok (.string "b"), .ok (.string "Bulk")] := by
  have hcompile : compile bulkyLists = .ok bulkyListsScript := by cbv
  obtain ⟨tokens, htokens, hheadings, hvalues⟩ := compile_uses bulkyLists bulkyListsScript hcompile
  refine ⟨hcompile, tokens, htokens, ?_, ?_⟩
  · rw [← hheadings]
    rfl
  · rw [← hvalues]
    rfl

end MailSieve
