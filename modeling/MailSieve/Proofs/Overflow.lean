import MailSieve.Proofs.Fringe
import MailSieve.Proofs.Segments

/-!
# Trees that cannot be read

The type of trees is loose, but a tree that comes from a text has every node where it belongs,
and every literal in it has the form its token was written in. What can still go wrong is that
a number is too large, and then reading ends at the first such number.
-/

namespace MailSieve

/-! ## Literals as they are written -/

namespace Literal

def multiplier : List Char → Nat
  | ['K'] | ['k'] => 2 ^ 10
  | ['M'] | ['m'] => 2 ^ 20
  | ['G'] | ['g'] => 2 ^ 30
  | _ => 1

def magnitude (literal : String) : Nat :=
  Text.digitsValue (literal.toList.takeWhile Char.isDigit) * multiplier (literal.toList.dropWhile Char.isDigit)

theorem quantifier?_of_isQuantifier {c : Char} (hc : Cut.isQuantifier c = true) :
    quantifier? c = some (UInt64.ofNat (multiplier [c])) := by
  simp only [Cut.isQuantifier, Bool.or_eq_true, beq_iff_eq] at hc
  rcases hc with ((((rfl | rfl) | rfl) | rfl) | rfl) | rfl <;> rfl

theorem toNat_multiplier (cs : List Char) : (UInt64.ofNat (multiplier cs)).toNat = multiplier cs := by
  unfold multiplier
  split <;> rfl

theorem multiplier_pos (cs : List Char) : 0 < multiplier cs := by
  unfold multiplier
  split <;> decide

theorem magnitude_append {digits : List Char} {q : Option Char} (hdigits : ∀ c ∈ digits, c.isDigit = true)
    (hq : ∀ c ∈ q, Cut.isQuantifier c = true) :
    magnitude (String.ofList (digits ++ q.toList)) = Text.digitsValue digits * multiplier q.toList := by
  have hstops : q.toList.takeWhile Char.isDigit = [] ∧ q.toList.dropWhile Char.isDigit = q.toList := by
    cases q with
    | none => exact ⟨rfl, rfl⟩
    | some c => simp [Cut.isDigit_of_isQuantifier (hq c rfl)]
  unfold magnitude
  rw [String.toList_ofList, List.takeWhile_append_of_pos hdigits, List.dropWhile_append_of_pos hdigits,
    hstops.1, hstops.2, List.append_nil]

theorem quantified_append {digits : List Char} {q : Option Char} (hdigits : ∀ c ∈ digits, c.isDigit = true)
    (hq : ∀ c ∈ q, Cut.isQuantifier c = true) :
    quantified (digits ++ q.toList) = (digits, UInt64.ofNat (multiplier q.toList)) := by
  cases q with
  | none =>
    rw [Option.toList_none, List.append_nil, quantified_of_isDigit hdigits]
    rfl
  | some c =>
    unfold quantified
    simp [quantifier?_of_isQuantifier (hq c rfl)]

theorem number_append {digits : List Char} {q : Option Char} (hne : digits ≠ [])
    (hdigits : ∀ c ∈ digits, c.isDigit = true) (hq : ∀ c ∈ q, Cut.isQuantifier c = true) :
    number (String.ofList (digits ++ q.toList)) =
      if magnitude (String.ofList (digits ++ q.toList)) < 2 ^ 64
      then .ok (magnitude (String.ofList (digits ++ q.toList)))
      else .error (.numberRange (String.ofList (digits ++ q.toList))) := by
  have hquantified : quantified (String.ofList (digits ++ q.toList)).toList =
      (digits, UInt64.ofNat (multiplier q.toList)) := by
    rw [String.toList_ofList, quantified_append hdigits hq]
  have hpos : 0 < (UInt64.ofNat (multiplier q.toList)).toNat := by
    rw [toNat_multiplier]
    exact multiplier_pos _
  rw [number_of_quantified hquantified hdigits hne hpos, toNat_multiplier, magnitude_append hdigits hq]
  rfl

theorem string_quoted (cs : List Char) :
    string (String.ofList ('"' :: (cs ++ ['"']))) = .ok (String.ofList (unescape cs)) := by
  simp [string, quotedBody?]

theorem string_multiline {opening cs : List Char} (hopening : Text.lowerChars opening = ['t', 'e', 'x', 't', ':']) :
    ∃ s, string (String.ofList (opening ++ cs)) = .ok s := by
  have hlength : opening.length = 5 := by
    have := congrArg List.length hopening
    simpa [Text.lowerChars] using this
  have htake : (opening ++ cs).take 5 = opening := by
    rw [← hlength, List.take_left]
  unfold string
  simp only [String.toList_ofList, htake, hopening]
  split
  · exact ⟨_, rfl⟩
  · exact ⟨_, rfl⟩

end Literal

namespace Token.Written

variable {literal : String} {lexeme : List Char}

theorem number_eq (h : Written (.number literal) lexeme) :
    Literal.number literal = if Literal.magnitude literal < 2 ^ 64 then .ok (Literal.magnitude literal)
      else .error (.numberRange literal) := by
  cases h with
  | number hne hdigits hq => exact Literal.number_append hne hdigits hq

theorem string_of_quoted (h : Written (.quoted literal) lexeme) : ∃ s, Literal.string literal = .ok s := by
  cases h with
  | quoted => exact ⟨_, Literal.string_quoted _⟩

theorem string_of_multiline (h : Written (.multiline literal) lexeme) : ∃ s, Literal.string literal = .ok s := by
  cases h with
  | multiline hopening => exact Literal.string_multiline hopening

/-- What is written for a token can be read, unless it is a number out of range. -/
theorem value?_eq_error {token : Token} {fault : LiteralFault} (h : token.Written lexeme) :
    token.value? = some (.error fault) ↔
      ∃ literal, token = .number literal ∧ 2 ^ 64 ≤ Literal.magnitude literal ∧ fault = .numberRange literal := by
  cases token with
  | number literal =>
    rw [value?, h.number_eq]
    by_cases hlt : Literal.magnitude literal < 2 ^ 64
    · rw [if_pos hlt]
      constructor
      · intro heq
        cases heq
      · rintro ⟨_, heq, hge, -⟩
        cases heq
        exact absurd hlt (Nat.not_lt.2 hge)
    · rw [if_neg hlt]
      constructor
      · intro heq
        cases heq
        exact ⟨literal, rfl, Nat.not_lt.1 hlt, rfl⟩
      · rintro ⟨_, heq, -, rfl⟩
        cases heq
        rfl
  | quoted literal =>
    obtain ⟨s, hs⟩ := h.string_of_quoted
    simp [value?, hs, Except.map]
  | multiline literal =>
    obtain ⟨s, hs⟩ := h.string_of_multiline
    simp [value?, hs, Except.map]
  | _ => simp [value?]

end Token.Written

theorem Laid.written {before cs : List Char} {ts : List PlacedToken} (h : Laid before cs ts) :
    ∀ t ∈ ts, ∃ lexeme, t.token.Written lexeme := by
  induction h with
  | done => exact nofun
  | layout _ _ ih => exact ih
  | lexeme hw _ ih => exact List.forall_mem_cons.2 ⟨⟨_, hw⟩, ih⟩

/-! ## The first literal that cannot be read -/

/-- Among the tokens, `fault` is that of the first literal with one. -/
def Stops (ts : List PlacedToken) (fault : LiteralFault) : Prop :=
  ∃ (leaves : List Leaf) (rest : List (Except LiteralFault Leaf)),
    ts.filterMap PlacedToken.leaf? = leaves.map .ok ++ .error fault :: rest

/-- A computation that fails only for the first of the literals ahead that cannot be read. -/
def Blames (ts : List PlacedToken) (x : Except Error α) : Prop :=
  ∀ e, x = .error e → ∃ fault, e = (Fault.literal fault).error ∧ Stops ts fault

theorem Fringe.stops {ts us : List PlacedToken} {ls : List Leaf} {fault : LiteralFault} (h : Fringe ts ls us)
    (hus : Stops us fault) : Stops ts fault := by
  obtain ⟨ms, rest, hms⟩ := hus
  refine ⟨ls ++ ms, rest, ?_⟩
  rw [h, hms, List.map_append, List.append_assoc]

theorem Stops.exists_token {ts : List PlacedToken} {fault : LiteralFault} (h : Stops ts fault) :
    ∃ t ∈ ts, t.token.value? = some (.error fault) := by
  obtain ⟨leaves, rest, h⟩ := h
  have hmem : .error fault ∈ ts.filterMap PlacedToken.leaf? := by
    rw [h]
    simp
  obtain ⟨t, ht, hleaf⟩ := List.mem_filterMap.1 hmem
  refine ⟨t, ht, ?_⟩
  rw [PlacedToken.value?_eq, hleaf]
  rfl

namespace Blames

variable {ts us : List PlacedToken}

theorem ok (a : α) : Blames ts (.ok a) := nofun

theorem bind {x : Except Error α} {f : α → Except Error β} (h : Blames ts x)
    (hf : ∀ a, x = .ok a → Blames ts (f a)) : Blames ts (x >>= f) := by
  cases x with
  | error e =>
    intro e' he
    cases he
    exact h e rfl
  | ok a => exact hf a rfl

/-- What was read before has no part in it. -/
theorem after {x : Except Error α} {ls : List Leaf} (h : Fringe ts ls us) (hx : Blames us x) : Blames ts x := by
  intro e he
  obtain ⟨fault, hfault, hstops⟩ := hx e he
  exact ⟨fault, hfault, h.stops hstops⟩

/-- A literal is blamed for itself. -/
theorem ofLiteral {t : PlacedToken} {x : Except LiteralFault α} {make : α → Reading} {value : α → Value}
    (ht : t.leaf? = some ((x.map value).map .value)) : Blames (t :: ts) (Reading.ofLiteral make x) := by
  cases x with
  | ok a => exact .ok _
  | error fault =>
    intro e he
    cases he
    refine ⟨fault, rfl, [], ts.filterMap PlacedToken.leaf?, ?_⟩
    rw [List.filterMap_cons_some ht]
    rfl

theorem collect_cons {parent : NodeKind} {pick : Reading → Option α} {r : Except Error Reading}
    {rs : Reading.Results} (hr : Blames ts r)
    (hrs : ∀ f, r = .ok f → ∃ a, pick f = some a ∧ Blames ts (Reading.collect parent pick rs)) :
    Blames ts (Reading.collect parent pick (r :: rs)) := by
  unfold Reading.collect
  apply hr.bind
  intro f hf
  obtain ⟨a, ha, hrest⟩ := hrs f hf
  simp only [ha]
  exact hrest.bind fun as _ => .ok (a :: as)

theorem ofArgument {x : Except Error Reading} (hx : Blames ts x)
    (hargument : ∀ f, x = .ok f → ∃ a, f.argument? = some a) : Blames ts (Reading.ofArgument [x]) := by
  cases x with
  | error e => exact hx
  | ok f =>
    obtain ⟨a, ha⟩ := hargument f rfl
    rw [Reading.ofArgument_singleton_eq_ok.2 ⟨f, a, rfl, ha, rfl⟩]
    exact .ok _

theorem ofTest {name : String} {p : Position} {x : Except Error Reading} (hx : Blames ts x)
    (harguments : ∀ f, x = .ok f → ∃ as tests, f = .arguments as tests) :
    Blames ts (Reading.ofTest name p [x]) := by
  cases x with
  | error e => exact hx
  | ok f =>
    obtain ⟨as, tests, rfl⟩ := harguments f rfl
    exact .ok _

theorem ofCommand {name : String} {p : Position} {x : Except Error Reading} {rs : Reading.Results}
    (hx : Blames ts x) (hrs : ∀ f, x = .ok f → Blames ts (Reading.ofCommand name p (.ok f :: rs))) :
    Blames ts (Reading.ofCommand name p (x :: rs)) := by
  cases x with
  | error e => exact hx
  | ok f => exact hrs f rfl

theorem ofBlock {name : String} {p : Position} {as : List Argument} {tests : Option (List Test)}
    {x : Except Error Reading} (hx : Blames ts x) (hbody : ∀ f, x = .ok f → ∃ cs, f = .commands cs) :
    Blames ts (Reading.ofCommand name p [.ok (.arguments as tests), Reading.ofBlock [x]]) := by
  cases x with
  | error e => exact hx
  | ok f =>
    obtain ⟨cs, rfl⟩ := hbody f rfl
    exact .ok _

end Blames

section
open Reading
variable {ts us : List PlacedToken} {n : Node} {ns : List Node}

theorem DerivesString.blames (h : DerivesString ts n us) : Blames ts (ofNode n) := by
  cases h with
  | quoted | multiline => exact .ofLiteral rfl

theorem DerivesStrings.blames (h : DerivesStrings ts ns us) :
    Blames ts (collect .stringList strings? (ofNodes ns)) := by
  induction h with
  | one h =>
    apply h.blames.collect_cons
    intro f hf
    obtain ⟨s, rfl, -⟩ := h.reads hf
    exact ⟨_, rfl, .ok []⟩
  | more h _ ih =>
    apply h.blames.collect_cons
    intro f hf
    obtain ⟨s, rfl, hs⟩ := h.reads hf
    exact ⟨_, rfl, ih.after (hs.fringe.drop rfl)⟩

theorem DerivesArgument.blames (h : DerivesArgument ts n us) : Blames ts (ofNode n) := by
  cases h with
  | string h =>
    apply h.blames.ofArgument
    intro f hf
    obtain ⟨s, rfl, -⟩ := h.reads hf
    exact ⟨_, rfl⟩
  | @number literal p =>
    have hnumber : Blames (⟨.number literal, p⟩ :: us) (ofNode (.number literal)) := .ofLiteral rfl
    apply hnumber.ofArgument
    intro f hf
    obtain ⟨value, -, rfl⟩ := ofLiteral_eq_ok.1 hf
    exact ⟨_, rfl⟩
  | tag => exact .ok _
  | @stringList p ts ns q us hs =>
    have hlist : Blames (⟨.punct .openBracket, p⟩ :: ts) (ofNode (.stringList ns)) :=
      (hs.blames.bind fun _ _ => .ok _).after (.skip rfl (.refl ts))
    apply hlist.ofArgument
    intro f hf
    obtain ⟨items, -, rfl⟩ := ofStringList_eq_ok.1 hf
    exact ⟨_, rfl⟩

/-- Reading goes on with the children after the plain arguments. -/
theorem DerivesPlain.blames {rs : Results} (h : DerivesPlain ts ns us)
    (hrs : ∀ before, Blames us (collectArguments before none rs)) (before : List Argument) :
    Blames ts (collectArguments before none (ofNodes ns ++ rs)) := by
  induction h generalizing before with
  | nil => exact hrs before
  | cons h _ ih =>
    apply h.blames.bind
    intro f hf
    obtain ⟨a, rfl, ha⟩ := h.reads hf
    exact (ih hrs _).after ha.fringe

end

open Reading

mutual
theorem DerivesArguments.blames {ts us : List PlacedToken} {ns : List Node} (h : DerivesArguments ts ns us) :
    Blames ts (ofNode (.arguments ns)) := by
  match h with
  | .arguments hp hl =>
    rw [ofNode, ofArguments, ofNodes_append]
    exact (hp.blames hl.blames []).bind fun _ _ => .ok _
termination_by structural h

theorem DerivesLast.blames {ts us : List PlacedToken} {ms : List Node} (h : DerivesLast ts ms us)
    (before : List Argument) : Blames ts (collectArguments before none (ofNodes ms)) := by
  match h with
  | .none => exact .ok _
  | .test h =>
    apply h.blames.bind
    intro f hf
    obtain ⟨t, rfl, -⟩ := h.reads hf
    exact .ok _
  | @DerivesLast.testList p ts ns _ _ hs =>
    have hlist : Blames (⟨.punct .openParen, p⟩ :: ts) (ofNode (.testList ns)) :=
      (hs.blames.bind fun _ _ => .ok _).after (.skip rfl (.refl ts))
    apply hlist.bind
    intro f hf
    obtain ⟨tests, -, hf⟩ := bind_eq_ok.1 hf
    cases hf
    exact .ok _
termination_by structural h

theorem DerivesTest.blames {ts us : List PlacedToken} {n : Node} (h : DerivesTest ts n us) :
    Blames ts (ofNode n) := by
  match h with
  | @DerivesTest.test name p ts ns _ h =>
    have harguments : Blames (⟨.identifier name, p⟩ :: ts) (ofNode (.arguments ns)) :=
      h.blames.after (.leaf rfl (.refl ts))
    apply harguments.ofTest
    intro f hf
    obtain ⟨as, tests, rfl, -⟩ := h.reads hf
    exact ⟨as, tests, rfl⟩
termination_by structural h

theorem DerivesTests.blames {ts us : List PlacedToken} {ns : List Node} (h : DerivesTests ts ns us) :
    Blames ts (collect .testList test? (ofNodes ns)) := by
  match h with
  | .one h =>
    apply h.blames.collect_cons
    intro f hf
    obtain ⟨t, rfl, -⟩ := h.reads hf
    exact ⟨t, rfl, .ok []⟩
  | .more h hs =>
    apply h.blames.collect_cons
    intro f hf
    obtain ⟨t, rfl, ht, -⟩ := h.reads hf
    exact ⟨t, rfl, hs.blames.after (ht.fringe.drop rfl)⟩
termination_by structural h
end

mutual
theorem DerivesCommands.blames {ts us : List PlacedToken} {ns : List Node} (h : DerivesCommands ts ns us) :
    Blames ts (collect .commands command? (ofNodes ns)) := by
  match h with
  | .nil => exact .ok []
  | .cons h hs =>
    apply h.blames.collect_cons
    intro f hf
    obtain ⟨c, rfl, hc, -⟩ := h.reads hf
    exact ⟨c, rfl, hs.blames.after hc.fringe⟩
termination_by structural h

theorem DerivesCommand.blames {ts us : List PlacedToken} {n : Node} (h : DerivesCommand ts n us) :
    Blames ts (ofNode n) := by
  match h with
  | @DerivesCommand.simple name p ts ns _ _ h =>
    have harguments : Blames (⟨.identifier name, p⟩ :: ts) (ofNode (.arguments ns)) :=
      h.blames.after (.leaf rfl (.refl ts))
    apply harguments.ofCommand
    intro f hf
    obtain ⟨as, tests, rfl, -⟩ := h.reads hf
    exact .ok _
  | @DerivesCommand.block name p ts ns _ us cs _ _ h hs =>
    have harguments : Blames (⟨.identifier name, p⟩ :: ts) (ofNode (.arguments ns)) :=
      h.blames.after (.leaf rfl (.refl ts))
    apply harguments.ofCommand
    intro f hf
    obtain ⟨as, tests, rfl, ha, -⟩ := h.reads hf
    -- the block is read after the arguments, so their literals come before its own
    have hbody : Blames us (ofNode (.commands cs)) := hs.blames.bind fun _ _ => .ok _
    apply (hbody.ofBlock ?_).after (.leaf rfl (ha.fringe.drop rfl))
    intro g hg
    obtain ⟨commands, -, hg⟩ := bind_eq_ok.1 hg
    cases hg
    exact ⟨commands, rfl⟩
termination_by structural h
end

/-! ## Whole texts -/

namespace Script

/-- The reading of a tree fails, if it does, for the first literal that cannot be read. -/
theorem blames_of_parseTokens {ts : List PlacedToken} {tree : Node} (h : parseTokens ts = .ok tree) :
    Blames ts (ofTree tree) := by
  obtain ⟨⟨hcommands⟩, -⟩ := derives_of_parseTokens h
  unfold ofTree ofNode
  apply (hcommands.blames.bind fun _ _ => .ok _).bind
  intro f hf
  obtain ⟨commands, -, hf⟩ := bind_eq_ok.1 hf
  cases hf
  exact .ok commands

section
variable {text : String} {tokens : List PlacedToken}

theorem written_of_tokenize (h : tokenize text = .ok tokens) : ∀ t ∈ tokens, ∃ lexeme, t.token.Written lexeme := by
  have hlaid : Laid [] text.toList tokens := laid_of_tokenizeFrom rfl h
  exact hlaid.written

/-- What is reported is a number of the text that is out of range. -/
theorem numberRange_of_ofTree {tree : Node} {e : Error} (htokens : tokenize text = .ok tokens)
    (hparse : parseTokens (withoutComments tokens) = .ok tree) (he : ofTree tree = .error e) :
    ∃ literal p, ⟨.number literal, p⟩ ∈ tokens ∧ 2 ^ 64 ≤ Literal.magnitude literal ∧
      e = (Fault.literal (.numberRange literal)).error := by
  obtain ⟨fault, rfl, hstops⟩ := blames_of_parseTokens hparse e he
  obtain ⟨⟨token, p⟩, ht, hvalue⟩ := hstops.exists_token
  have ht := List.mem_of_mem_filter ht
  obtain ⟨lexeme, hlexeme⟩ := written_of_tokenize htokens _ ht
  obtain ⟨literal, rfl, hrange, rfl⟩ := hlexeme.value?_eq_error.1 hvalue
  exact ⟨literal, p, ht, hrange, rfl⟩

/-- Every literal of a text that compiles can be read. -/
theorem value?_ne_error {script : Script} (htokens : tokenize text = .ok tokens)
    (h : compile text = .ok script) : ∀ t ∈ tokens, ∀ fault, t.token.value? ≠ some (.error fault) := by
  obtain ⟨tokens', htokens', hfringe⟩ := fringe_of_compile h
  rw [htokens] at htokens'
  cases htokens'
  intro t ht fault hvalue
  rw [PlacedToken.value?_eq] at hvalue
  obtain ⟨leaf, hleaf, hread⟩ := Option.bind_eq_some_iff.1 hvalue
  have hmem : leaf ∈ tokens.filterMap PlacedToken.leaf? := List.mem_filterMap.2 ⟨t, ht, hleaf⟩
  rw [hfringe] at hmem
  obtain ⟨l, -, rfl⟩ := List.mem_map.1 hmem
  cases l <;> cases hread

theorem magnitude_lt_of_compile {script : Script} (htokens : tokenize text = .ok tokens)
    (h : compile text = .ok script) {literal : String} {p : Position} (ht : ⟨.number literal, p⟩ ∈ tokens) :
    Literal.magnitude literal < 2 ^ 64 := by
  obtain ⟨lexeme, hlexeme⟩ := written_of_tokenize htokens _ ht
  by_contra hrange
  have hvalue := hlexeme.value?_eq_error.2 ⟨literal, rfl, Nat.not_lt.1 hrange, rfl⟩
  exact value?_ne_error htokens h _ ht _ hvalue

end

/-- The tree of a text is read, or a number is out of range and is what is reported: no node is
out of place and no string malformed. -/
theorem ofTree_of_parse (text : String) (tree : Node) (h : parse text = .ok tree) :
    ∃ tokens, tokenize text = .ok tokens ∧
      ((∃ script, ofTree tree = .ok script) ∨
        ∃ literal p, ⟨.number literal, p⟩ ∈ tokens ∧ 2 ^ 64 ≤ Literal.magnitude literal ∧
          ofTree tree = .error (Fault.literal (.numberRange literal)).error) ∧
      ((∃ e, ofTree tree = .error e) ↔
        ∃ literal p, ⟨.number literal, p⟩ ∈ tokens ∧ 2 ^ 64 ≤ Literal.magnitude literal) := by
  have hcompile : compile text = ofTree tree := by rw [compile, h, ok_bind]
  unfold parse at h
  split at h
  · cases h
  next tokens htokens =>
  refine ⟨tokens, htokens, ?_⟩
  cases hread : ofTree tree with
  | ok script =>
    have hfits : ∀ literal p, ⟨.number literal, p⟩ ∈ tokens → Literal.magnitude literal < 2 ^ 64 :=
      fun literal p => magnitude_lt_of_compile htokens (hcompile.trans hread)
    refine ⟨.inl ⟨script, rfl⟩, ?_, ?_⟩
    · rintro ⟨e, he⟩
      cases he
    · rintro ⟨literal, p, ht, hrange⟩
      exact absurd (hfits literal p ht) (Nat.not_lt.2 hrange)
  | error e =>
    obtain ⟨literal, p, ht, hrange, rfl⟩ := numberRange_of_ofTree htokens h hread
    exact ⟨.inr ⟨literal, p, ht, hrange, rfl⟩, fun _ => ⟨literal, p, ht, hrange⟩, fun _ => ⟨_, rfl⟩⟩

def vast : String :=
  "reject text:\n..a\n.\n;\nif size :over 17179869184G \x7b discard; \x7d"

def vastTokens : List PlacedToken := [
  ⟨.identifier "reject", ⟨1, 1⟩⟩, ⟨.multiline "text:\n..a\n.\n", ⟨1, 8⟩⟩, ⟨.punct .semicolon, ⟨4, 1⟩⟩,
  ⟨.identifier "if", ⟨5, 1⟩⟩, ⟨.identifier "size", ⟨5, 4⟩⟩, ⟨.tag ":over", ⟨5, 9⟩⟩,
  ⟨.number "17179869184G", ⟨5, 15⟩⟩, ⟨.punct .openBrace, ⟨5, 28⟩⟩, ⟨.identifier "discard", ⟨5, 30⟩⟩,
  ⟨.punct .semicolon, ⟨5, 37⟩⟩, ⟨.punct .closeBrace, ⟨5, 39⟩⟩]

def vastTree : Node := .start [.commands [
  .command "reject" ⟨1, 1⟩ [.arguments [.argument [.string "text:\n..a\n.\n"]]],
  .command "if" ⟨5, 1⟩ [
    .arguments [.test "size" ⟨5, 4⟩ [.arguments [.argument [.tag ":over"], .argument [.number "17179869184G"]]]],
    .block [.commands [.command "discard" ⟨5, 30⟩ [.arguments []]]]]]]

theorem ofTree_of_parse_vast :
    parse vast = .ok vastTree ∧ Literal.magnitude "17179869184G" = 2 ^ 64 ∧
      ∃ literal, ofTree vastTree = .error (Fault.literal (.numberRange literal)).error := by
  have hparse : parse vast = .ok vastTree := by cbv
  have hmagnitude : Literal.magnitude "17179869184G" = 2 ^ 64 := by decide
  have htext : tokenize vast = .ok vastTokens := by cbv
  obtain ⟨tokens, htokens, hresult, hiff⟩ := ofTree_of_parse vast vastTree hparse
  rw [htext] at htokens
  cases htokens
  have hmem : ⟨.number "17179869184G", ⟨5, 15⟩⟩ ∈ vastTokens := by simp [vastTokens]
  obtain ⟨e, he⟩ := hiff.2 ⟨_, _, hmem, Nat.le_of_eq hmagnitude.symm⟩
  refine ⟨hparse, hmagnitude, ?_⟩
  rcases hresult with ⟨script, hscript⟩ | ⟨literal, -, -, -, herror⟩
  · rw [he] at hscript
    cases hscript
  · exact ⟨literal, herror⟩

end Script

end MailSieve
