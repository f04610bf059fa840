import MailSieve.Proofs.Lexemes
import MailSieve.Proofs.Relocation

/-!
# Texts one after the other

Where the first of two texts ends a line, no lexeme reaches across the border: what comes next
is read as if it stood alone, only further down. So scripts can be joined by joining their texts.
-/

namespace MailSieve

/-! ## Ended lines -/

namespace Text

def EndsLine (cs : List Char) : Prop :=
  cs = [] ∨ cs.getLast? = some '\n'

theorem EndsLine.of_append {cs ds : List Char} (h : EndsLine (cs ++ ds)) : EndsLine ds := by
  by_cases hds : ds = []
  · exact .inl hds
  · rcases h with h | h
    · exact .inl (List.append_eq_nil_iff.1 h).2
    · rw [List.getLast?_append_of_ne_nil cs hds] at h
      exact .inr h

theorem EndsLine.tail {c : Char} {cs : List Char} (h : EndsLine (c :: cs)) : EndsLine cs := by
  rw [← List.singleton_append] at h
  exact h.of_append

theorem EndsLine.mem {cs : List Char} (h : EndsLine cs) (hne : cs ≠ []) : '\n' ∈ cs := by
  rcases h with h | h
  · exact absurd h hne
  · exact List.mem_of_getLast? h

theorem EndsLine.mem_tail {c : Char} {cs : List Char} (h : EndsLine (c :: cs)) (hc : c ≠ '\n') : '\n' ∈ cs := by
  have hmem : '\n' ∈ c :: cs := h.mem (List.cons_ne_nil c cs)
  rcases List.mem_cons.1 hmem with heq | hmem
  · exact absurd heq.symm hc
  · exact hmem

end Text

/-! ## Lexemes -/

namespace Cut

theorem blockCommentEnd_extend {cs : List Char} {cut : List Char × List Char}
    (h : blockCommentEnd cs = some cut) (ds : List Char) :
    blockCommentEnd (cs ++ ds) = some (cut.1, cut.2 ++ ds) := by
  fun_induction blockCommentEnd cs generalizing cut with
  | case1 => cases h
  | case2 cs => cases h; rfl
  | case3 c cs hne ih =>
    obtain ⟨tail, ht, rfl⟩ := Option.map_eq_some_iff.1 h
    rw [List.cons_append, blockCommentEnd, ih ht]
    · rfl
    · intro rest hc hrest
      cases cs with
      | nil => cases ht
      | cons d cs =>
        obtain ⟨rfl, -⟩ := List.cons.inj hrest
        exact hne cs hc rfl

theorem quotedEnd_extend {cs : List Char} {cut : List Char × List Char} (h : quotedEnd cs = some cut)
    (ds : List Char) : quotedEnd (cs ++ ds) = some (cut.1, cut.2 ++ ds) := by
  fun_induction quotedEnd cs generalizing cut with
  | case1 => cases h
  | case2 cs => cases h; rfl
  | case3 c cs ih =>
    obtain ⟨tail, ht, rfl⟩ := Option.map_eq_some_iff.1 h
    rw [List.cons_append, List.cons_append, quotedEnd, ih ht]
    rfl
  | case4 c cs hquote hbackslash ih =>
    obtain ⟨tail, ht, rfl⟩ := Option.map_eq_some_iff.1 h
    rw [List.cons_append, quotedEnd, ih ht]
    · rfl
    · exact hquote
    · intro d rest hc hrest
      cases cs with
      | nil => cases ht
      | cons e cs => exact hbackslash e cs hc rfl

/-- A dot that ends the text ends the string, and would not if the text went on. -/
theorem multilineEnd_extend {b : Bool} {cs : List Char} {cut : List Char × List Char}
    (hline : Text.EndsLine cs) (h : multilineEnd b cs = some cut) (ds : List Char) :
    multilineEnd b (cs ++ ds) = some (cut.1, cut.2 ++ ds) := by
  fun_induction multilineEnd b cs generalizing cut with
  | case1 => cases h
  | case2 => simp [Text.EndsLine] at hline
  | case3 cs => cases h; rfl
  | case4 cs => cases h; rfl
  | case5 b c cs hfinal hfeed hreturn ih =>
    obtain ⟨tail, ht, rfl⟩ := Option.map_eq_some_iff.1 h
    have hne : cs ≠ [] := by
      rintro rfl
      cases ht
    rw [List.cons_append, multilineEnd, ih hline.tail ht]
    · rfl
    · intro hb hc hnil
      exact hne (List.append_eq_nil_iff.1 hnil).1
    · intro rest hb hc hrest
      cases cs with
      | nil => exact hne rfl
      | cons d cs =>
        obtain ⟨rfl, -⟩ := List.cons.inj hrest
        exact hfeed cs hb hc rfl
    · intro rest hb hc hrest
      match cs with
      | [] => exact hne rfl
      | [d] =>
        obtain ⟨rfl, -⟩ := List.cons.inj hrest
        simp [multilineEnd] at ht
      | d :: e :: cs =>
        simp only [List.cons_append, List.cons.injEq] at hrest
        rw [hrest.1, hrest.2.1] at hreturn
        exact hreturn cs hb hc rfl

theorem longest_extend {p : Char → Bool} {cs : List Char} {c : Char} (hc : c ∈ cs) (hp : p c = false)
    (ds : List Char) : longest p (cs ++ ds) = ((longest p cs).1, (longest p cs).2 ++ ds) := by
  induction cs with
  | nil => cases hc
  | cons d cs ih =>
    by_cases hd : p d = true
    · have hmem : c ∈ cs := by
        rcases List.mem_cons.1 hc with heq | hmem
        · rw [heq, hd] at hp
          cases hp
        · exact hmem
      have htail := ih hmem
      simp only [longest, Prod.mk.injEq] at htail
      simp [longest, hd, htail]
    · simp [longest, hd]

theorem numberEnd_extend {cs : List Char} (h : '\n' ∈ cs) (ds : List Char) :
    numberEnd (cs ++ ds) = ((numberEnd cs).1, (numberEnd cs).2 ++ ds) := by
  have hdigits := longest_extend (p := Char.isDigit) h rfl ds
  simp only [longest, Prod.mk.injEq] at hdigits
  simp only [numberEnd, hdigits]
  cases hrest : cs.dropWhile Char.isDigit with
  | nil =>
    have hall := List.dropWhile_eq_nil_iff.1 hrest '\n' h
    cases hall
  | cons q rest =>
    by_cases hq : isQuantifier q = true
    · simp [hq]
    · simp [hq]

theorem opensMultiline_extend {cs : List Char} (hline : Text.EndsLine cs) (hne : cs ≠ []) (ds : List Char) :
    opensMultiline (cs ++ ds) = opensMultiline cs := by
  by_cases hlength : 5 ≤ cs.length
  · rw [opensMultiline, opensMultiline, List.take_append_of_le_length hlength]
  · -- the line feed is among the five
    have hmem : '\n' ∈ (cs ++ ds).take 5 := by
      rw [List.take_append, List.take_of_length_le (by omega)]
      exact List.mem_append_left _ (hline.mem hne)
    have hfalse : ∀ es : List Char, '\n' ∈ es → (Text.lowerChars es == multilineKeyword) = false := by
      intro es hes
      rw [beq_eq_false_iff_ne]
      intro heq
      have hlower : '\n' ∈ Text.lowerChars es := List.mem_map.2 ⟨'\n', hes, rfl⟩
      rw [heq] at hlower
      revert hlower
      decide
    rw [opensMultiline, opensMultiline, hfalse _ hmem, List.take_of_length_le (by omega), hfalse _ (hline.mem hne)]

/-! A lexeme of a text that ends a line is the same when more text follows, kind by kind. -/

def extend (cut : Cut) (ds : List Char) : Cut :=
  ⟨cut.kind, cut.lexeme, cut.rest ++ ds⟩

theorem extend_comment {cs : List Char} (hline : '\n' ∈ cs) (ds : List Char) :
    Rule '#' (cs ++ ds) ((found .comment ['#'] (longest (· != '\n') cs)).extend ds) := by
  have hrule : Rule '#' (cs ++ ds) _ := .comment
  rwa [longest_extend hline rfl] at hrule

theorem extend_multiline {c : Char} {cs : List Char} {cut : List Char × List Char}
    (hline : Text.EndsLine (c :: cs)) (hopens : opensMultiline (c :: cs) = true)
    (hend : multilineEnd false (cs.drop 4) = some cut) (ds : List Char) :
    Rule c (cs ++ ds) ((found .multiline ((c :: cs).take 5) cut).extend ds) := by
  have hlength : 5 ≤ (c :: cs).length := length_of_opensMultiline hopens
  have hdrop : Text.EndsLine (cs.drop 4) := by
    have htail := hline.tail
    rw [← List.take_append_drop 4 cs] at htail
    exact htail.of_append
  have hextended : multilineEnd false ((cs ++ ds).drop 4) = some (cut.1, cut.2 ++ ds) := by
    rw [List.drop_append_of_le_length (Nat.le_of_succ_le_succ hlength), multilineEnd_extend hdrop hend]
  have hkeyword : opensMultiline (c :: (cs ++ ds)) = true :=
    (opensMultiline_extend hline (List.cons_ne_nil c cs) ds).trans hopens
  have htake : (c :: (cs ++ ds)).take 5 = (c :: cs).take 5 := List.take_append_of_le_length hlength
  have hrule : Rule c (cs ++ ds) _ := .multiline hkeyword hextended
  rwa [htake] at hrule

theorem extend_tag {cs : List Char} (hline : '\n' ∈ cs) (hne : (longest Text.isWord cs).1 ≠ []) (ds : List Char) :
    Rule ':' (cs ++ ds) ((found .tag [':'] (longest Text.isWord cs)).extend ds) := by
  have hlongest := longest_extend (p := Text.isWord) hline rfl ds
  have hrule : Rule ':' (cs ++ ds) _ := .tag (by rwa [hlongest])
  rwa [hlongest] at hrule

theorem extend_number {c : Char} {cs : List Char} (hline : '\n' ∈ cs) (hdigit : c.isDigit = true) (ds : List Char) :
    Rule c (cs ++ ds) ((found .number [] (numberEnd (c :: cs))).extend ds) := by
  have hrule : Rule c (cs ++ ds) _ := .number hdigit
  rwa [← List.cons_append, numberEnd_extend (List.mem_cons_of_mem c hline)] at hrule

theorem extend_identifier {c : Char} {cs : List Char} (hline : Text.EndsLine (c :: cs))
    (hletter : (c.isAlpha || c == '_') = true) (hopens : opensMultiline (c :: cs) = false) (ds : List Char) :
    Rule c (cs ++ ds) ((found .identifier [c] (longest Text.isWord cs)).extend ds) := by
  have hc : c ≠ '\n' := Text.ne_of_class (Text.isLetter_iff.1 hletter).1 rfl
  have hkeyword : opensMultiline (c :: (cs ++ ds)) = false :=
    (opensMultiline_extend hline (List.cons_ne_nil c cs) ds).trans hopens
  have hrule : Rule c (cs ++ ds) _ := .identifier hletter hkeyword
  rwa [longest_extend (hline.mem_tail hc) rfl] at hrule

theorem Rule.extend {c : Char} {cs : List Char} {cut : Cut} (hline : Text.EndsLine (c :: cs))
    (h : Rule c cs cut) (ds : List Char) : Rule c (cs ++ ds) (cut.extend ds) := by
  cases h with
  | punct => exact .punct
  | comment => exact extend_comment (hline.mem_tail (by decide)) ds
  | blockComment hend => exact .blockComment (blockCommentEnd_extend hend ds)
  | quoted hend => exact .quoted (quotedEnd_extend hend ds)
  | multiline hopens hend => exact extend_multiline hline hopens hend ds
  | tag hne => exact extend_tag (hline.mem_tail (by decide)) hne ds
  | number hdigit => exact extend_number (hline.mem_tail (Text.ne_of_class hdigit rfl)) hdigit ds
  | identifier hletter hopens => exact extend_identifier hline hletter hopens ds

end Cut

/-! ## Tokens -/

def Position.down (n : Nat) (p : Position) : Position :=
  ⟨p.line + n, p.column⟩

theorem Position.down_next (n : Nat) (p : Position) (c : Char) : (p.next c).down n = (p.down n).next c := by
  unfold next
  by_cases hc : c = '\n'
  · simp only [hc, if_true, down]
    congr 1
    omega
  · simp only [hc, if_false, down]

theorem Position.down_advance (n : Nat) (p : Position) (cs : List Char) :
    (p.advance cs).down n = (p.down n).advance cs := by
  induction cs generalizing p with
  | nil => rfl
  | cons c cs ih => rw [advance_cons, advance_cons, ih, down_next]

theorem Position.line_advance (p : Position) (cs : List Char) :
    (p.advance cs).line = p.line + cs.count '\n' := by
  induction cs generalizing p with
  | nil => rfl
  | cons c cs ih =>
    rw [advance_cons, ih, List.count_cons]
    by_cases hc : c = '\n'
    · simp only [next, hc, if_true, beq_self_eq_true]
      omega
    · simp [next, hc]

/-- After a text that ends a line one is at the start of a line. -/
theorem Position.start_advance {cs : List Char} (h : Text.EndsLine cs) :
    start.advance cs = start.down (cs.count '\n') := by
  rcases h with rfl | h
  · rfl
  · obtain ⟨ds, rfl⟩ := List.getLast?_eq_some_iff.1 h
    have hline := line_advance start (ds ++ ['\n'])
    rw [advance_append] at hline ⊢
    rw [down, ← hline]
    rfl

theorem tokenizeFrom_of_split {p : Position} {c : Char} {cs : List Char} {cut : Cut}
    {ts : List PlacedToken} (hc : ¬ Text.isLayout c = true) (hcut : Cut.split c cs = .ok cut)
    (h : tokenizeFrom (p.advance cut.lexeme) cut.rest = .ok ts) :
    tokenizeFrom p (c :: cs) = .ok (⟨Token.ofLexeme cut.kind cut.lexeme, p⟩ :: ts) := by
  rw [tokenizeFrom_cut (Bool.eq_false_iff.2 hc) hcut, h]
  rfl

theorem tokenizeFrom_down (n : Nat) {p : Position} {cs : List Char} {ts : List PlacedToken}
    (h : tokenizeFrom p cs = .ok ts) :
    tokenizeFrom (p.down n) cs = .ok (ts.map (PlacedToken.relocate (Position.down n))) := by
  fun_induction tokenizeFrom p cs generalizing ts with
  | case1 =>
    cases h
    rw [tokenizeFrom]
    rfl
  | case2 p c cs hc ih =>
    rw [tokenizeFrom, if_pos hc, ← Position.down_next]
    exact ih h
  | case3 p c cs hc fault hcut => cases h
  | case4 p c cs hc cut hcut e he ih => cases h
  | case5 p c cs hc cut hcut us hus ih =>
    cases h
    have htail := ih hus
    rw [Position.down_advance] at htail
    exact tokenizeFrom_of_split hc hcut htail

theorem tokenizeFrom_append {p : Position} {cs ds : List Char} {ts us : List PlacedToken}
    (hline : Text.EndsLine cs) (hcs : tokenizeFrom p cs = .ok ts)
    (hds : tokenizeFrom (p.advance cs) ds = .ok us) : tokenizeFrom p (cs ++ ds) = .ok (ts ++ us) := by
  fun_induction tokenizeFrom p cs generalizing ts with
  | case1 =>
    cases hcs
    exact hds
  | case2 p c cs hc ih =>
    rw [List.cons_append, tokenizeFrom, if_pos hc]
    exact ih hline.tail hcs hds
  | case3 p c cs hc fault hcut => cases hcs
  | case4 p c cs hc cut hcut e he ih => cases hcs
  | case5 p c cs hc cut hcut ts hts ih =>
    cases hcs
    have hsplit : Cut.split c (cs ++ ds) = .ok ⟨cut.kind, cut.lexeme, cut.rest ++ ds⟩ :=
      Cut.split_eq_ok.2 ((Cut.rule_of_split hcut).extend hline ds)
    rw [← Cut.split_append hcut] at hline hds
    rw [Position.advance_append] at hds
    rw [List.cons_append, tokenizeFrom_of_split hc hsplit (ih hline.of_append hts hds), List.cons_append]

theorem tokenize_append {a b : String} {ts us : List PlacedToken} (hline : Text.EndsLine a.toList)
    (ha : tokenize a = .ok ts) (hb : tokenize b = .ok us) :
    tokenize (a ++ b) = .ok (ts ++ us.map (PlacedToken.relocate (Position.down (a.toList.count '\n')))) := by
  unfold tokenize at ha hb ⊢
  have hdown := tokenizeFrom_down (a.toList.count '\n') hb
  rw [← Position.start_advance hline] at hdown
  rw [String.toList_append]
  exact tokenizeFrom_append hline ha hdown

/-! ## Readings -/

section
variable {ts us : List PlacedToken}

theorem ReadsString.extend {s : String} (h : ReadsString ts s us) (vs : List PlacedToken) :
    ReadsString (ts ++ vs) s (us ++ vs) := by
  cases h with
  | quoted h => exact .quoted h
  | multiline h => exact .multiline h

theorem ReadsStrings.extend {items : List String} (h : ReadsStrings ts items us) (vs : List PlacedToken) :
    ReadsStrings (ts ++ vs) items (us ++ vs) := by
  induction h with
  | one h => exact .one (h.extend vs)
  | more h _ ih => exact .more (h.extend vs) ih

theorem ReadsArgument.extend {a : Argument} (h : ReadsArgument ts a us) (vs : List PlacedToken) :
    ReadsArgument (ts ++ vs) a (us ++ vs) := by
  cases h with
  | string h => exact .string (h.extend vs)
  | number h => exact .number h
  | tag => exact .tag
  | stringList hs => exact .stringList (hs.extend vs)

theorem ReadsPlain.extend {as : List Argument} (h : ReadsPlain ts as us) (vs : List PlacedToken) :
    ReadsPlain (ts ++ vs) as (us ++ vs) := by
  induction h with
  | nil => exact .nil
  | cons h _ ih => exact .cons (h.extend vs) ih

end

mutual
theorem ReadsArguments.extend {ts us : List PlacedToken} {as : List Argument} {tests : Option (List Test)}
    (h : ReadsArguments ts as tests us) (vs : List PlacedToken) :
    ReadsArguments (ts ++ vs) as tests (us ++ vs) := by
  match h with
  | .arguments hp hl => exact .arguments (hp.extend vs) (hl.extend vs)
termination_by structural h

theorem ReadsLast.extend {ts us : List PlacedToken} {tests : Option (List Test)} (h : ReadsLast ts tests us)
    (vs : List PlacedToken) : ReadsLast (ts ++ vs) tests (us ++ vs) := by
  match h with
  | .none => exact .none
  | .test h => exact .test (h.extend vs)
  | .testList hs => exact .testList (hs.extend vs)
termination_by structural h

theorem ReadsTest.extend {ts us : List PlacedToken} {t : Test} (h : ReadsTest ts t us)
    (vs : List PlacedToken) : ReadsTest (ts ++ vs) t (us ++ vs) := by
  match h with
  | .test h => exact .test (h.extend vs)
termination_by structural h

theorem ReadsTests.extend {ts us : List PlacedToken} {tests : List Test} (h : ReadsTests ts tests us)
    (vs : List PlacedToken) : ReadsTests (ts ++ vs) tests (us ++ vs) := by
  match h with
  | .one h => exact .one (h.extend vs)
  | .more h hs => exact .more (h.extend vs) (hs.extend vs)
termination_by structural h
end

mutual
theorem ReadsCommands.extend {ts us : List PlacedToken} {cs : List Command} (h : ReadsCommands ts cs us)
    (vs : List PlacedToken) : ReadsCommands (ts ++ vs) cs (us ++ vs) := by
  match h with
  | .nil => exact .nil
  | .cons h hs => exact .cons (h.extend vs) (hs.extend vs)
termination_by structural h

theorem ReadsCommand.extend {ts us : List PlacedToken} {c : Command} (h : ReadsCommand ts c us)
    (vs : List PlacedToken) : ReadsCommand (ts ++ vs) c (us ++ vs) := by
  match h with
  | .simple h => exact .simple (h.extend vs)
  | .block h hs => exact .block (h.extend vs) (hs.extend vs)
termination_by structural h
end

theorem ReadsCommands.append {ts us vs : List PlacedToken} {cs ds : List Command}
    (h : ReadsCommands ts cs us) (hds : ReadsCommands us ds vs) : ReadsCommands ts (cs ++ ds) vs := by
  match h with
  | .nil => exact hds
  | .cons h hs => exact .cons h (hs.append hds)
termination_by structural h

/-! ## Scripts -/

namespace Script

theorem nesting_append (cs ds : List Command) :
    Script.nesting (cs ++ ds) = max (Script.nesting cs) (Script.nesting ds) := by
  induction cs with
  | nil => simp [Script.nesting]
  | cons c cs ih => rw [List.cons_append, Script.nesting, Script.nesting, ih, Nat.max_assoc]

theorem ofTokens_append {ts us : List PlacedToken} {script script' : Script}
    (h : ofTokens ts = .ok script) (h' : ofTokens us = .ok script') :
    ofTokens (ts ++ us) = .ok (script ++ script') := by
  rw [ofTokens_eq_ok] at h h' ⊢
  constructor
  · exact (h.1.extend us).append h'.1
  · rw [nesting_append]
    exact Nat.max_le.2 ⟨h.2, h'.2⟩

theorem withoutComments_append (ts us : List PlacedToken) :
    withoutComments (ts ++ us) = withoutComments ts ++ withoutComments us :=
  List.filter_append ts us

theorem withoutComments_relocate (f : Position → Position) (ts : List PlacedToken) :
    withoutComments (ts.map (PlacedToken.relocate f)) = (withoutComments ts).map (PlacedToken.relocate f) :=
  List.filter_map

theorem tokenize_of_compile {text : String} {script : Script} (h : compile text = .ok script) :
    ∃ ts, tokenize text = .ok ts ∧ ofTokens (withoutComments ts) = .ok script := by
  obtain ⟨ts, hts, hreads⟩ := compile_eq_ok.1 h
  exact ⟨ts, hts, ofTokens_eq_ok.2 hreads⟩

/-- The script of two texts, the first of which is empty or ends a line, is the script of the
first followed by that of the second, moved down by the lines of the first. -/
theorem compile_append {a b : String} {A B : Script} (hline : a = "" ∨ a.toList.getLast? = some '\n')
    (ha : compile a = .ok A) (hb : compile b = .ok B) :
    compile (a ++ b) = .ok (A ++ Script.relocate (Position.down (a.toList.count '\n')) B) := by
  obtain ⟨ts, hts, hA⟩ := tokenize_of_compile ha
  obtain ⟨us, hus, hB⟩ := tokenize_of_compile hb
  have hends : Text.EndsLine a.toList := by
    rcases hline with rfl | hlast
    · exact .inl rfl
    · exact .inr hlast
  rw [compile_of_tokenize (tokenize_append hends hts hus), withoutComments_append, withoutComments_relocate]
  apply ofTokens_append hA
  rw [ofTokens_relocate, hB]
  rfl

def opening : String := "if true \x7b\n  keep;\n\x7d # done\n"

def openingScript : Script := [
  ⟨"if", [], some [⟨"true", [], none, ⟨1, 4⟩⟩], some [⟨"keep", [], none, none, ⟨2, 3⟩⟩], ⟨1, 1⟩⟩]

def closing : String := "if not false \x7b stop; \x7d"

def closingScript : Script := [
  ⟨"if", [], some [⟨"not", [], some [⟨"false", [], none, ⟨1, 8⟩⟩], ⟨1, 4⟩⟩],
    some [⟨"stop", [], none, none, ⟨1, 16⟩⟩], ⟨1, 1⟩⟩]

theorem compile_append_closing :
    opening.toList.getLast? = some '\n' ∧ compile opening = .ok openingScript ∧
      compile closing = .ok closingScript ∧ compile (opening ++ closing) = .ok (openingScript ++ [
        ⟨"if", [], some [⟨"not", [], some [⟨"false", [], none, ⟨4, 8⟩⟩], ⟨4, 4⟩⟩],
          some [⟨"stop", [], none, none, ⟨4, 16⟩⟩], ⟨4, 1⟩⟩]) := by
  have hopening : compile opening = .ok openingScript := by cbv
  have hclosing : compile closing = .ok closingScript := by cbv
  have hends : opening.toList.getLast? = some '\n' := by decide
  refine ⟨hends, hopening, hclosing, ?_⟩
  rw [compile_append (.inr hends) hopening hclosing]
  rfl

end Script

end MailSieve
