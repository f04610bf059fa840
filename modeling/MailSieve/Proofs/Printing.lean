import MailSieve.Proofs.Lexemes
import MailSieve.Proofs.Placement

/-!
# Printing scripts

A script is printed as its lexemes with single spaces between them. What compiles can
be written down, and compiling what was written gives the script back, at the positions
of the printed text.
-/

namespace MailSieve

/-! ## The printer -/

def stringLexemes : List String → List Lexeme
  | [] => []
  | [s] => [.string s]
  | s :: items => .string s :: .punct .comma :: stringLexemes items

/-- A list of one string is written with brackets or, where `bare` allows it, without. -/
def Argument.lexemes (bare : Bool) : Argument → List Lexeme
  | .strings items =>
    match bare, items with
    | true, [s] => [.string s]
    | _, items => .punct .openBracket :: (stringLexemes items ++ [.punct .closeBracket])
  | .number value => [.number value]
  | .tag name => [.tag name]

mutual
def Test.lexemes (bare : Bool) : Test → List Lexeme
  | ⟨name, arguments, tests, _⟩ =>
    .identifier name :: (arguments.flatMap (·.lexemes bare) ++ lexemes? bare tests)
def Test.lexemes? (bare : Bool) : Option (List Test) → List Lexeme
  | none => []
  | some [t] => t.lexemes bare
  | some tests => .punct .openParen :: (lexemesAll bare tests ++ [.punct .closeParen])
def Test.lexemesAll (bare : Bool) : List Test → List Lexeme
  | [] => []
  | [t] => t.lexemes bare
  | t :: tests => t.lexemes bare ++ .punct .comma :: lexemesAll bare tests
end

mutual
def Command.lexemes (bare : Bool) : Command → List Lexeme
  | ⟨name, arguments, tests, block, _⟩ =>
    .identifier name :: (arguments.flatMap (·.lexemes bare) ++
      (Test.lexemes? bare tests ++ Script.blockLexemes bare block))
def Script.blockLexemes (bare : Bool) : Option (List Command) → List Lexeme
  | none => [.punct .semicolon]
  | some commands => .punct .openBrace :: (Script.lexemes bare commands ++ [.punct .closeBrace])
def Script.lexemes (bare : Bool) : List Command → List Lexeme
  | [] => []
  | c :: commands => c.lexemes bare ++ Script.lexemes bare commands
end

def Script.print (bare : Bool) (script : Script) : String :=
  String.ofList (spaced (Script.lexemes bare script))

/-! ## Scripts that can be written down -/

inductive Argument.Writable : Argument → Prop
  | strings {items} (h : items ≠ []) : Writable (.strings items)
  | number {value} (h : value < Literal.numberBound) : Writable (.number value)
  | tag {name} (h : Text.isTag name.toList = true) : Writable (.tag name)

mutual
inductive Test.Writable : Test → Prop
  | test {name as tests p} (hname : Text.isIdentifier name.toList = true) (has : ∀ a ∈ as, a.Writable)
      (htests : Test.Writable? tests) : Test.Writable ⟨name, as, tests, p⟩
inductive Test.Writable? : Option (List Test) → Prop
  | none : Test.Writable? none
  | some {tests} (h : Test.WritableAll tests) : Test.Writable? (some tests)
inductive Test.WritableAll : List Test → Prop
  | one {t} (h : Test.Writable t) : Test.WritableAll [t]
  | more {t tests} (h : Test.Writable t) (hs : Test.WritableAll tests) : Test.WritableAll (t :: tests)
end

mutual
inductive Command.Writable : Command → Prop
  | command {name as tests block p} (hname : Text.isIdentifier name.toList = true)
      (has : ∀ a ∈ as, a.Writable) (htests : Test.Writable? tests) (hblock : Script.WritableBlock block) :
      Command.Writable ⟨name, as, tests, block, p⟩
inductive Script.WritableBlock : Option (List Command) → Prop
  | none : Script.WritableBlock none
  | some {commands} (h : Script.Writable commands) : Script.WritableBlock (some commands)
inductive Script.Writable : List Command → Prop
  | nil : Script.Writable []
  | cons {c commands} (h : Command.Writable c) (hs : Script.Writable commands) :
      Script.Writable (c :: commands)
end

/-! ## What compiles can be written down -/

theorem Literal.lt_of_number_eq_ok {literal : String} {value : Nat} (h : number literal = .ok value) :
    value < numberBound := by
  unfold number at h
  split at h
  split at h
  · next n _ =>
    cases h
    exact n.toNat_lt_size
  · cases h

def ProperTokens (ts : List PlacedToken) : Prop := ∀ t ∈ ts, t.token.Proper

theorem ProperTokens.cons {t : PlacedToken} {ts : List PlacedToken} (h : ProperTokens (t :: ts)) :
    t.token.Proper ∧ ProperTokens ts := List.forall_mem_cons.1 h

section
variable {ts us : List PlacedToken}

theorem ReadsString.proper {text : String} (h : ReadsString ts text us) (hts : ProperTokens ts) :
    ProperTokens us := by
  cases h <;> exact hts.cons.2

theorem ReadsStrings.proper {items : List String} (h : ReadsStrings ts items us) (hts : ProperTokens ts) :
    items ≠ [] ∧ ProperTokens us := by
  induction h with
  | one h => exact ⟨nofun, h.proper hts⟩
  | more h _ ih => exact ⟨nofun, (ih (h.proper hts).cons.2).2⟩

theorem ReadsArgument.writable {a : Argument} (h : ReadsArgument ts a us) (hts : ProperTokens ts) :
    a.Writable ∧ ProperTokens us := by
  cases h with
  | string h => exact ⟨.strings nofun, h.proper hts⟩
  | number h => exact ⟨.number (Literal.lt_of_number_eq_ok h), hts.cons.2⟩
  | tag =>
    rw [Text.lowercase_of_isTag hts.cons.1]
    exact ⟨.tag hts.cons.1, hts.cons.2⟩
  | stringList hs =>
    obtain ⟨hne, hus⟩ := hs.proper hts.cons.2
    exact ⟨.strings hne, hus.cons.2⟩

theorem ReadsPlain.writable {as : List Argument} (h : ReadsPlain ts as us) (hts : ProperTokens ts) :
    (∀ a ∈ as, a.Writable) ∧ ProperTokens us := by
  induction h with
  | nil => exact ⟨nofun, hts⟩
  | cons h _ ih =>
    obtain ⟨ha, hus⟩ := h.writable hts
    obtain ⟨has, hvs⟩ := ih hus
    exact ⟨List.forall_mem_cons.2 ⟨ha, has⟩, hvs⟩

end

mutual
theorem ReadsArguments.writable {ts us : List PlacedToken} {as : List Argument} {tests : Option (List Test)}
    (h : ReadsArguments ts as tests us) (hts : ProperTokens ts) :
    (∀ a ∈ as, a.Writable) ∧ Test.Writable? tests ∧ ProperTokens us := by
  match h with
  | .arguments hp hl =>
    obtain ⟨has, hus⟩ := hp.writable hts
    exact ⟨has, hl.writable hus⟩
termination_by structural h

theorem ReadsLast.writable {ts us : List PlacedToken} {tests : Option (List Test)} (h : ReadsLast ts tests us)
    (hts : ProperTokens ts) : Test.Writable? tests ∧ ProperTokens us := by
  match h with
  | .none => exact ⟨.none, hts⟩
  | .test h =>
    obtain ⟨ht, hus⟩ := h.writable hts
    exact ⟨.some (.one ht), hus⟩
  | .testList hs =>
    obtain ⟨htests, hus⟩ := hs.writable hts.cons.2
    exact ⟨.some htests, hus.cons.2⟩
termination_by structural h

theorem ReadsTest.writable {ts us : List PlacedToken} {t : Test} (h : ReadsTest ts t us)
    (hts : ProperTokens ts) : t.Writable ∧ ProperTokens us := by
  match h with
  | .test h =>
    obtain ⟨has, htests, hus⟩ := h.writable hts.cons.2
    exact ⟨.test hts.cons.1 has htests, hus⟩
termination_by structural h

theorem ReadsTests.writable {ts us : List PlacedToken} {tests : List Test} (h : ReadsTests ts tests us)
    (hts : ProperTokens ts) : Test.WritableAll tests ∧ ProperTokens us := by
  match h with
  | .one h =>
    obtain ⟨ht, hus⟩ := h.writable hts
    exact ⟨.one ht, hus⟩
  | .more h hs =>
    obtain ⟨ht, hus⟩ := h.writable hts
    obtain ⟨htests, hvs⟩ := hs.writable hus.cons.2
    exact ⟨.more ht htests, hvs⟩
termination_by structural h
end

mutual
theorem ReadsCommands.writable {ts us : List PlacedToken} {commands : List Command}
    (h : ReadsCommands ts commands us) (hts : ProperTokens ts) :
    Script.Writable commands ∧ ProperTokens us := by
  match h with
  | .nil => exact ⟨.nil, hts⟩
  | .cons h hs =>
    obtain ⟨hc, hus⟩ := h.writable hts
    obtain ⟨hcs, hvs⟩ := hs.writable hus
    exact ⟨.cons hc hcs, hvs⟩
termination_by structural h

theorem ReadsCommand.writable {ts us : List PlacedToken} {c : Command} (h : ReadsCommand ts c us)
    (hts : ProperTokens ts) : c.Writable ∧ ProperTokens us := by
  match h with
  | .simple h =>
    obtain ⟨has, htests, hus⟩ := h.writable hts.cons.2
    exact ⟨.command hts.cons.1 has htests .none, hus.cons.2⟩
  | .block h hs =>
    obtain ⟨has, htests, hus⟩ := h.writable hts.cons.2
    obtain ⟨hblock, hvs⟩ := hs.writable hus.cons.2
    exact ⟨.command hts.cons.1 has htests (.some hblock), hvs.cons.2⟩
termination_by structural h
end

/-! ## What was written down is read -/

namespace Lexeme

def placed (l : Lexeme) : PlacedToken := ⟨l.token, .unknown⟩

theorem placed_identifier (name : String) : (identifier name).placed = ⟨.identifier name, .unknown⟩ := by
  rw [placed, token_identifier]

theorem placed_string (s : String) : (string s).placed = ⟨.quoted (Action.quote s), .unknown⟩ := by
  rw [placed, token_string]

theorem placed_punct (p : Punct) : (punct p).placed = ⟨.punct p, .unknown⟩ := rfl

end Lexeme

open Lexeme

theorem reads_stringLexemes {items : List String} (h : items ≠ []) (us : List PlacedToken) :
    ReadsStrings ((stringLexemes items).map placed ++ us) items us := by
  fun_induction stringLexemes items with
  | case1 => exact absurd rfl h
  | case2 s =>
    simp only [List.map_cons, List.map_nil, List.cons_append, List.nil_append, placed_string]
    exact .one (.quoted (Literal.string_quote s))
  | case3 s items hne ih =>
    simp only [List.map_cons, List.cons_append, placed_string, placed_punct]
    exact .more (.quoted (Literal.string_quote s)) (ih hne)

section
variable (bare : Bool) (us : List PlacedToken)

theorem Argument.Writable.reads {a : Argument} (h : a.Writable) :
    ReadsArgument ((a.lexemes bare).map placed ++ us) a us := by
  cases h with
  | strings h =>
    simp only [lexemes]
    split
    · next s =>
      simp only [List.map_cons, List.map_nil, List.cons_append, List.nil_append, placed_string]
      exact .string (.quoted (Literal.string_quote s))
    · simp only [List.map_cons, List.map_append, List.cons_append, List.append_assoc, placed_punct]
      exact .stringList (reads_stringLexemes h _)
  | number h => exact .number (Literal.number_toDigits h)
  | @tag name h =>
    have htag := @ReadsArgument.tag name .unknown us
    rw [Text.lowercase_of_isTag h] at htag
    simpa only [lexemes, List.map_cons, List.map_nil, List.cons_append, List.nil_append, placed, token_tag h]
      using htag

theorem reads_arguments {as : List Argument} (h : ∀ a ∈ as, a.Writable) :
    ReadsPlain ((as.flatMap (·.lexemes bare)).map placed ++ us) as us := by
  induction as with
  | nil => exact .nil
  | cons a as ih =>
    obtain ⟨ha, has⟩ := List.forall_mem_cons.1 h
    rw [List.flatMap_cons, List.map_append, List.append_assoc]
    exact .cons (ha.reads bare _) (ih has)

end

section
variable {bare : Bool}

theorem Test.WritableAll.ne_nil {tests : List Test} (h : Test.WritableAll tests) : tests ≠ [] := by
  cases h <;> exact nofun

theorem Test.lexemesAll_cons (t : Test) {tests : List Test} (h : tests ≠ []) :
    Test.lexemesAll bare (t :: tests) = t.lexemes bare ++ .punct .comma :: Test.lexemesAll bare tests :=
  Test.lexemesAll.eq_3 bare t tests h

/-- Several tests stand in parentheses. -/
theorem Test.lexemes?_cons (t : Test) {tests : List Test} (h : tests ≠ []) :
    Test.lexemes? bare (some (t :: tests)) =
      .punct .openParen :: (Test.lexemesAll bare (t :: tests) ++ [.punct .closeParen]) := by
  cases tests with
  | nil => exact absurd rfl h
  | cons t' tests => rw [Test.lexemes?]; exact nofun

end

mutual
theorem Test.Writable.reads {t : Test} (h : t.Writable) (bare : Bool) (us : List PlacedToken) :
    ReadsTest ((t.lexemes bare).map placed ++ us) t.unplaced us := by
  match h with
  | .test hname has htests =>
    simp only [Test.lexemes, List.map_cons, List.map_append, List.cons_append, List.append_assoc,
      placed_identifier]
    exact .test (.arguments (reads_arguments bare _ has) (htests.reads bare us))
termination_by structural h

theorem Test.Writable?.reads {tests : Option (List Test)} (h : Test.Writable? tests) (bare : Bool)
    (us : List PlacedToken) :
    ReadsLast ((Test.lexemes? bare tests).map placed ++ us) (Test.unplaced? tests) us := by
  match h with
  | .none => exact .none
  | .some (.one h) => exact .test (h.reads bare us)
  | .some (.more h hs) =>
    simp only [Test.lexemes?_cons _ hs.ne_nil, Test.lexemesAll_cons _ hs.ne_nil, List.map_cons, List.map_append,
      List.cons_append, List.append_assoc, placed_punct]
    exact .testList (.more (h.reads bare _) (hs.reads bare _))
termination_by structural h

theorem Test.WritableAll.reads {tests : List Test} (h : Test.WritableAll tests) (bare : Bool)
    (us : List PlacedToken) :
    ReadsTests ((Test.lexemesAll bare tests).map placed ++ us) (Test.unplacedAll tests) us := by
  match h with
  | .one h => exact .one (h.reads bare us)
  | .more h hs =>
    simp only [Test.lexemesAll_cons _ hs.ne_nil, List.map_cons, List.map_append, List.cons_append,
      List.append_assoc, placed_punct]
    exact .more (h.reads bare _) (hs.reads bare us)
termination_by structural h
end

mutual
theorem Command.Writable.reads {c : Command} (h : c.Writable) (bare : Bool) (us : List PlacedToken) :
    ReadsCommand ((c.lexemes bare).map placed ++ us) c.unplaced us := by
  match h with
  | .command hname has htests .none =>
    simp only [Command.lexemes, Script.blockLexemes, List.map_cons, List.map_append, List.cons_append,
      List.append_assoc, placed_identifier]
    exact .simple (.arguments (reads_arguments bare _ has) (htests.reads bare _))
  | .command hname has htests (.some hs) =>
    simp only [Command.lexemes, Script.blockLexemes, List.map_cons, List.map_append, List.cons_append,
      List.append_assoc, placed_identifier]
    exact .block (.arguments (reads_arguments bare _ has) (htests.reads bare _)) (hs.reads bare _)
termination_by structural h

theorem Script.Writable.reads {commands : List Command} (h : Script.Writable commands) (bare : Bool)
    (us : List PlacedToken) :
    ReadsCommands ((Script.lexemes bare commands).map placed ++ us) (Script.unplaced commands) us := by
  match h with
  | .nil => exact .nil
  | .cons h hs =>
    rw [Script.lexemes, List.map_append, List.append_assoc]
    exact .cons (h.reads bare _) (hs.reads bare us)
termination_by structural h
end

/-! ## What is written down is proper -/

section
variable (bare : Bool)

theorem proper_stringLexemes (items : List String) : ∀ l ∈ stringLexemes items, l.Proper := by
  fun_induction stringLexemes items with
  | case1 => exact nofun
  | case2 s => exact List.forall_mem_singleton.2 .string
  | case3 s items hne ih => exact List.forall_mem_cons.2 ⟨.string, List.forall_mem_cons.2 ⟨.punct, ih⟩⟩

theorem Argument.Writable.proper {a : Argument} (h : a.Writable) : ∀ l ∈ a.lexemes bare, l.Proper := by
  cases h with
  | strings h =>
    simp only [lexemes]
    split
    · exact List.forall_mem_singleton.2 .string
    · simp only [List.forall_mem_cons, List.forall_mem_append]
      exact ⟨.punct, proper_stringLexemes _, .punct, nofun⟩
  | number h => exact List.forall_mem_singleton.2 .number
  | tag h => exact List.forall_mem_singleton.2 (.tag h)

theorem proper_arguments {as : List Argument} (h : ∀ a ∈ as, a.Writable) :
    ∀ l ∈ as.flatMap (·.lexemes bare), l.Proper := by
  intro l hl
  obtain ⟨a, ha, hl⟩ := List.mem_flatMap.1 hl
  exact (h a ha).proper bare l hl

end

mutual
theorem Test.Writable.proper {t : Test} (h : t.Writable) (bare : Bool) : ∀ l ∈ t.lexemes bare, l.Proper := by
  match h with
  | .test hname has htests =>
    simp only [Test.lexemes, List.forall_mem_cons, List.forall_mem_append]
    exact ⟨.identifier hname, proper_arguments bare has, htests.proper bare⟩
termination_by structural h

theorem Test.Writable?.proper {tests : Option (List Test)} (h : Test.Writable? tests) (bare : Bool) :
    ∀ l ∈ Test.lexemes? bare tests, l.Proper := by
  match h with
  | .none => exact nofun
  | .some (.one h) => exact h.proper bare
  | .some (.more h hs) =>
    simp only [Test.lexemes?_cons _ hs.ne_nil, Test.lexemesAll_cons _ hs.ne_nil, List.forall_mem_cons,
      List.forall_mem_append]
    exact ⟨.punct, ⟨h.proper bare, .punct, hs.proper bare⟩, .punct, nofun⟩
termination_by structural h

theorem Test.WritableAll.proper {tests : List Test} (h : Test.WritableAll tests) (bare : Bool) :
    ∀ l ∈ Test.lexemesAll bare tests, l.Proper := by
  match h with
  | .one h => exact h.proper bare
  | .more h hs =>
    simp only [Test.lexemesAll_cons _ hs.ne_nil, List.forall_mem_cons, List.forall_mem_append]
    exact ⟨h.proper bare, .punct, hs.proper bare⟩
termination_by structural h
end

mutual
theorem Command.Writable.proper {c : Command} (h : c.Writable) (bare : Bool) :
    ∀ l ∈ c.lexemes bare, l.Proper := by
  match h with
  | .command hname has htests hblock =>
    simp only [Command.lexemes, List.forall_mem_cons, List.forall_mem_append]
    exact ⟨.identifier hname, proper_arguments bare has, htests.proper bare, hblock.proper bare⟩
termination_by structural h

theorem Script.WritableBlock.proper {block : Option (List Command)} (h : Script.WritableBlock block)
    (bare : Bool) : ∀ l ∈ Script.blockLexemes bare block, l.Proper := by
  match h with
  | .none => exact List.forall_mem_singleton.2 .punct
  | .some hs =>
    simp only [Script.blockLexemes, List.forall_mem_cons, List.forall_mem_append]
    exact ⟨.punct, hs.proper bare, .punct, nofun⟩
termination_by structural h

theorem Script.Writable.proper {commands : List Command} (h : Script.Writable commands) (bare : Bool) :
    ∀ l ∈ Script.lexemes bare commands, l.Proper := by
  match h with
  | .nil => exact nofun
  | .cons h hs =>
    rw [Script.lexemes, List.forall_mem_append]
    exact ⟨h.proper bare, hs.proper bare⟩
termination_by structural h
end

/-! ## Compiling what was written down -/

theorem withoutComments_of_proper {ls : List Lexeme} {ts : List PlacedToken} (h : ∀ l ∈ ls, l.Proper)
    (hts : ts.map PlacedToken.token = ls.map Lexeme.token) : withoutComments ts = ts := by
  refine List.filter_eq_self.2 fun t ht => ?_
  have hmem : t.token ∈ ls.map Lexeme.token := hts ▸ List.mem_map_of_mem ht
  obtain ⟨l, hl, heq⟩ := List.mem_map.1 hmem
  rw [← heq, (h l hl).isComment]
  rfl

namespace Script

/-- A text with the tokens of a script compiles to it, up to positions. -/
theorem compile_of_lexes {bare : Bool} {script : Script} {text : String} (h : Script.Writable script)
    (hn : Script.nesting script ≤ Parser.maxNesting)
    (hlex : Lexes text.toList ((Script.lexemes bare script).map Lexeme.token)) :
    ∃ script', compile text = .ok script' ∧ unplaced script' = unplaced script := by
  obtain ⟨ts, hts, htokens⟩ := hlex .start
  have hsame : SameTokens ((Script.lexemes bare script).map placed ++ []) ts := by
    refine sameTokens_of_map_eq ?_
    rw [List.append_nil, htokens, List.map_map]
    rfl
  -- the printed tokens are read at unknown positions, and then at those they have in the text
  obtain ⟨us, script', hus, hreads, heq⟩ := (h.reads bare []).move hsame
  cases hus
  rw [unplaced_unplaced] at heq
  refine ⟨script', compile_eq_ok.2 ⟨ts, hts, ?_, ?_⟩, heq⟩
  · rwa [withoutComments_of_proper (h.proper bare) htokens]
  · rwa [nesting_eq_of_unplaced heq]

theorem lexes_print {bare : Bool} {script : Script} (h : Script.Writable script) :
    Lexes (print bare script).toList ((Script.lexemes bare script).map Lexeme.token) := by
  rw [print, String.toList_ofList]
  exact .spaced fun l hl => (h.proper bare l hl).whole

theorem writable_of_compile {text : String} {script : Script} (h : compile text = .ok script) :
    Script.Writable script ∧ Script.nesting script ≤ Parser.maxNesting := by
  obtain ⟨ts, hts, hreads, hn⟩ := compile_eq_ok.1 h
  have hproper : ProperTokens (withoutComments ts) :=
    fun t ht => tokenizeFrom_proper hts t (List.mem_filter.1 ht).1
  exact ⟨(hreads.writable hproper).1, hn⟩

/-- Printing what compiles and compiling that gives the script back, up to positions. -/
theorem compile_print (bare : Bool) (text : String) (script : Script) (h : compile text = .ok script) :
    ∃ script', compile (print bare script) = .ok script' ∧ unplaced script' = unplaced script := by
  obtain ⟨hw, hn⟩ := writable_of_compile h
  exact compile_of_lexes hw hn (lexes_print hw)

def largeReports : String :=
  "if AllOf (header :IS [\"a\\\"b\", \"c\"] \"\\\\\", not size :over 2K) \x7b\n" ++
    "  fileinto text: # folder\n..old\n.\n; # end\n\x7d"

def largeReportsScript : Script := [
  ⟨"if", [], some [⟨"AllOf", [], some [
    ⟨"header", [.tag ":is", .strings ["a\"b", "c"], .strings ["\\"]], none, ⟨1, 11⟩⟩,
    ⟨"not", [], some [⟨"size", [.tag ":over", .number 2048], none, ⟨1, 46⟩⟩], ⟨1, 42⟩⟩], ⟨1, 4⟩⟩],
    some [⟨"fileinto", [.strings [".old\n"]], none, none, ⟨2, 3⟩⟩], ⟨1, 1⟩⟩]

def largeReportsPrinted : String :=
  "if AllOf ( header :is [ \"a\\\"b\" , \"c\" ] [ \"\\\\\" ] , not size :over 2048 ) \x7b " ++
    "fileinto [ \".old\n\" ] ; \x7d"

theorem compile_print_largeReports :
    compile largeReports = .ok largeReportsScript ∧ print false largeReportsScript = largeReportsPrinted ∧
      ∃ script', compile largeReportsPrinted = .ok script' ∧ unplaced script' = unplaced largeReportsScript := by
  have htext : compile largeReports = .ok largeReportsScript := by cbv
  have hprint : print false largeReportsScript = largeReportsPrinted := by cbv
  refine ⟨htext, hprint, ?_⟩
  rw [← hprint]
  exact compile_print false largeReports largeReportsScript htext

end Script

end MailSieve
