import MailSieve.Proofs.Lexemes
import MailSieve.Proofs.Offsets

/-!
# Where the tokens of a text stand

The bytes of a text are divided among its tokens: each has a range of its own, the ranges
follow one another, and between them stands only layout. What is in a range is what is
written for the token, and the tokens of a range by itself are that token alone.
-/

namespace MailSieve

/-! ## What is written for a token -/

/-- The inside of a quoted string: a quote stands only after a backslash. -/
inductive Text.Escaped : List Char → Prop
  | nil : Escaped []
  | pair {c cs} (h : Escaped cs) : Escaped ('\\' :: c :: cs)
  | plain {c cs} (hquote : c ≠ '"') (hbackslash : c ≠ '\\') (h : Escaped cs) : Escaped (c :: cs)

/-- Lines up to the first one that is a single dot. The text may end with that dot. -/
inductive Text.Dotted : List Char → Prop
  | final : Dotted ['.']
  | lineFeed : Dotted ['.', '\n']
  | crlf : Dotted ['.', '\r', '\n']
  | line {l cs} (hl : '\n' ∉ l) (hdot : l ≠ ['.']) (hreturn : l ≠ ['.', '\r']) (h : Dotted cs) :
      Dotted (l ++ '\n' :: cs)

inductive Text.DotLine : List Char → Prop
  | final : DotLine ['.']
  | lineFeed {cs} : DotLine ('.' :: '\n' :: cs)
  | crlf {cs} : DotLine ('.' :: '\r' :: '\n' :: cs)

/-- What stands in a text for a token. A name, a number or a string is written as the token
has it, a tag in any case, and a comment with its delimiters and blanks around it. -/
inductive Token.Written : Token → List Char → Prop
  | punct {p} : Written (.punct p) [p.toChar]
  | identifier {c cs} (hc : (c.isAlpha || c == '_') = true) (hcs : ∀ d ∈ cs, Text.isWord d = true) :
      Written (.identifier (String.ofList (c :: cs))) (c :: cs)
  | tag {w} (hne : w ≠ []) (hw : ∀ c ∈ w, Text.isWord c = true) :
      Written (.tag (Text.lowercase (String.ofList (':' :: w)))) (':' :: w)
  | number {digits q} (hne : digits ≠ []) (hdigits : ∀ c ∈ digits, c.isDigit = true)
      (hq : ∀ c ∈ q, Cut.isQuantifier c = true) :
      Written (.number (String.ofList (digits ++ q.toList))) (digits ++ Option.toList q)
  | quoted {cs} (h : Text.Escaped cs) :
      Written (.quoted (String.ofList ('"' :: (cs ++ ['"'])))) ('"' :: (cs ++ ['"']))
  | multiline {opening l cs} (hopening : Text.lowerChars opening = ['t', 'e', 'x', 't', ':'])
      (hl : '\n' ∉ l) (h : Text.Dotted cs) :
      Written (.multiline (String.ofList (opening ++ (l ++ '\n' :: cs)))) (opening ++ (l ++ '\n' :: cs))
  | comment {body} (h : '\n' ∉ body) :
      Written (.comment (String.ofList (Text.trim body))) ('#' :: body)
  | blockComment {body} (h : ¬ ['*', '/'] <:+: body) :
      Written (.blockComment (String.ofList (Text.trim body))) ('/' :: '*' :: (body ++ ['*', '/']))

/-! ## What a cut has at its front -/

namespace Cut

theorem blockCommentEnd_eq_some {cs : List Char} {cut : List Char × List Char}
    (h : blockCommentEnd cs = some cut) :
    ∃ body, cut.1 = body ++ ['*', '/'] ∧ ¬ ['*', '/'] <:+: body := by
  fun_induction blockCommentEnd cs generalizing cut with
  | case1 => cases h
  | case2 cs =>
    cases h
    exact ⟨[], rfl, by simp⟩
  | case3 c cs hne ih =>
    obtain ⟨tail, ht, rfl⟩ := Option.map_eq_some_iff.1 h
    obtain ⟨body, hbody, hnot⟩ := ih ht
    refine ⟨c :: body, by rw [cons, hbody, List.cons_append], ?_⟩
    intro hin
    rcases List.infix_cons_iff.1 hin with hprefix | hin
    · -- the delimiter would have been found here
      obtain ⟨rest, hrest⟩ := hprefix
      simp only [List.cons_append, List.nil_append, List.cons.injEq] at hrest
      have hcs := blockCommentEnd_append ht
      rw [hbody, ← hrest.2] at hcs
      exact hne _ hrest.1.symm hcs.symm
    · exact hnot hin

theorem quotedEnd_eq_some {cs : List Char} {cut : List Char × List Char} (h : quotedEnd cs = some cut) :
    ∃ body, cut.1 = body ++ ['"'] ∧ Text.Escaped body := by
  fun_induction quotedEnd cs generalizing cut with
  | case1 => cases h
  | case2 cs =>
    cases h
    exact ⟨[], rfl, .nil⟩
  | case3 c cs ih =>
    obtain ⟨tail, ht, rfl⟩ := Option.map_eq_some_iff.1 h
    obtain ⟨body, hbody, hescaped⟩ := ih ht
    exact ⟨'\\' :: c :: body, by simp [cons, hbody], .pair hescaped⟩
  | case4 c cs hquote hbackslash ih =>
    obtain ⟨tail, ht, rfl⟩ := Option.map_eq_some_iff.1 h
    obtain ⟨body, hbody, hescaped⟩ := ih ht
    refine ⟨c :: body, by simp [cons, hbody], .plain hquote ?_ hescaped⟩
    -- a backslash with nothing after it leaves the string open
    intro hc
    cases cs with
    | nil => cases ht
    | cons d cs => exact hbackslash d cs hc rfl

/-- From the start of a line, and from within one. -/
theorem multilineEnd_eq_some {b : Bool} {cs : List Char} {cut : List Char × List Char}
    (h : multilineEnd b cs = some cut) :
    if b then Text.Dotted cut.1
    else ∃ l tail, cut.1 = l ++ '\n' :: tail ∧ '\n' ∉ l ∧ Text.Dotted tail := by
  fun_induction multilineEnd b cs generalizing cut with
  | case1 => cases h
  | case2 => cases h; exact .final
  | case3 cs => cases h; exact .lineFeed
  | case4 cs => cases h; exact .crlf
  | case5 b c cs hfinal hfeed hreturn ih =>
    obtain ⟨tail, ht, rfl⟩ := Option.map_eq_some_iff.1 h
    have hcs := multilineEnd_append ht
    have ih := ih ht
    have hline : ∃ l rest, c :: tail.1 = l ++ '\n' :: rest ∧ '\n' ∉ l ∧ Text.Dotted rest := by
      by_cases hc : c = '\n'
      · subst hc
        exact ⟨[], tail.1, rfl, List.not_mem_nil, ih⟩
      · simp only [hc, beq_iff_eq, if_false] at ih
        obtain ⟨l, rest, htail, hl, hrest⟩ := ih
        refine ⟨c :: l, rest, by rw [htail, List.cons_append], ?_, hrest⟩
        rw [List.mem_cons, not_or]
        exact ⟨Ne.symm hc, hl⟩
    cases b with
    | false => exact hline
    | true =>
      obtain ⟨l, rest, htail, hl, hrest⟩ := hline
      simp only [cons, if_true]
      have hcons : c :: cs = l ++ '\n' :: (rest ++ tail.2) := by
        rw [← hcs, ← List.cons_append, htail, List.append_assoc, List.cons_append]
      rw [htail]
      refine .line hl ?_ ?_ hrest
      · rintro rfl
        simp only [List.cons_append, List.nil_append, List.cons.injEq] at hcons
        exact hfeed _ rfl hcons.1 hcons.2
      · rintro rfl
        simp only [List.cons_append, List.nil_append, List.cons.injEq] at hcons
        exact hreturn _ rfl hcons.1 hcons.2

theorem numberEnd_eq {c : Char} (hc : c.isDigit = true) (cs : List Char) :
    ∃ digits q, (numberEnd (c :: cs)).1 = digits ++ Option.toList q ∧ digits ≠ [] ∧
      (∀ d ∈ digits, d.isDigit = true) ∧ ∀ d ∈ q, isQuantifier d = true := by
  have hne : (c :: cs).takeWhile Char.isDigit ≠ [] := by simp [hc]
  have hdigits : ∀ d ∈ (c :: cs).takeWhile Char.isDigit, d.isDigit = true :=
    List.all_eq_true.1 List.all_takeWhile
  have hnone : ∀ d ∈ (none : Option Char), isQuantifier d = true := by
    intro d hd
    cases hd
  unfold numberEnd
  split
  · exact ⟨_, none, by simp, hne, hdigits, hnone⟩
  · next q rest _ =>
    by_cases hq : isQuantifier q = true
    · rw [if_pos hq]
      refine ⟨_, some q, rfl, hne, hdigits, ?_⟩
      intro d hd
      cases hd
      exact hq
    · rw [if_neg hq]
      exact ⟨_, none, by simp, hne, hdigits, hnone⟩

theorem not_mem_of_longest (cs : List Char) : '\n' ∉ (longest (· != '\n') cs).1 := by
  intro hmem
  have := List.all_eq_true.1 List.all_takeWhile _ hmem
  simp at this

/-! What is cut off is written for its token, kind by kind. -/

section
variable {c : Char} {cs : List Char} {cut : List Char × List Char}

theorem written_blockComment (hend : blockCommentEnd cs = some cut) :
    (Token.ofLexeme .blockComment ('/' :: '*' :: cut.1)).Written ('/' :: '*' :: cut.1) := by
  obtain ⟨body, hbody, hnot⟩ := blockCommentEnd_eq_some hend
  have hlexeme := Token.Written.blockComment hnot
  simpa [Token.ofLexeme, hbody] using hlexeme

theorem written_quoted (hend : quotedEnd cs = some cut) :
    (Token.ofLexeme .quoted ('"' :: cut.1)).Written ('"' :: cut.1) := by
  obtain ⟨body, hbody, hescaped⟩ := quotedEnd_eq_some hend
  rw [hbody]
  exact .quoted hescaped

theorem written_multiline (hopens : opensMultiline (c :: cs) = true)
    (hend : multilineEnd false (cs.drop 4) = some cut) :
    (Token.ofLexeme .multiline ((c :: cs).take 5 ++ cut.1)).Written ((c :: cs).take 5 ++ cut.1) := by
  obtain ⟨l, tail, htail, hl, hdotted⟩ := multilineEnd_eq_some hend
  rw [htail]
  exact .multiline (eq_of_beq hopens) hl hdotted

theorem written_tag (hne : (longest Text.isWord cs).1 ≠ []) :
    (Token.ofLexeme .tag (':' :: (longest Text.isWord cs).1)).Written (':' :: (longest Text.isWord cs).1) := by
  have hw : ∀ d ∈ (longest Text.isWord cs).1, Text.isWord d = true := List.all_eq_true.1 List.all_takeWhile
  have hlexeme := Token.Written.tag hne hw
  rwa [Text.lowercase_tag hw] at hlexeme

theorem written_number (hdigit : c.isDigit = true) (cs : List Char) :
    (Token.ofLexeme .number (numberEnd (c :: cs)).1).Written (numberEnd (c :: cs)).1 := by
  obtain ⟨digits, q, hlexeme, hne, hdigits, hq⟩ := numberEnd_eq hdigit cs
  rw [hlexeme]
  exact .number hne hdigits hq

end

theorem Rule.written {c : Char} {cs : List Char} {cut : Cut} (h : Rule c cs cut) :
    (Token.ofLexeme cut.kind cut.lexeme).Written cut.lexeme := by
  cases h with
  | punct => exact .punct
  | comment => exact .comment (not_mem_of_longest cs)
  | blockComment hend => exact written_blockComment hend
  | quoted hend => exact written_quoted hend
  | multiline hopens hend => exact written_multiline hopens hend
  | tag hne => exact written_tag hne
  | number hdigit => exact written_number hdigit cs
  | identifier hletter => exact .identifier hletter (List.all_eq_true.1 List.all_takeWhile)

end Cut

/-! ## How a text is laid out -/

/-- After `before`, the text is made of layout and of what is written for the tokens, each of
which is placed after all that stands before it. -/
inductive Laid : List Char → List Char → List PlacedToken → Prop
  | done {before} : Laid before [] []
  | layout {before c cs ts} (hc : Text.isLayout c = true) (h : Laid (before ++ [c]) cs ts) :
      Laid before (c :: cs) ts
  | lexeme {before token lexeme cs ts} (hw : Token.Written token lexeme) (h : Laid (before ++ lexeme) cs ts) :
      Laid before (lexeme ++ cs) (⟨token, Position.start.advance before⟩ :: ts)

theorem laid_of_tokenizeFrom {p : Position} {cs before : List Char} {ts : List PlacedToken}
    (hp : p = Position.start.advance before) (h : tokenizeFrom p cs = .ok ts) : Laid before cs ts := by
  fun_induction tokenizeFrom p cs generalizing before ts with
  | case1 => cases h; exact .done
  | case2 p c cs hc ih =>
    refine .layout hc (ih ?_ h)
    rw [hp, Position.advance_append]
    rfl
  | case3 p c cs hc fault hcut => cases h
  | case4 p c cs hc cut hcut e he ih => cases h
  | case5 p c cs hc cut hcut us hus ih =>
    cases h
    have hrest : Laid (before ++ cut.lexeme) cut.rest us := ih (by rw [hp, Position.advance_append]) hus
    rw [← Cut.split_append hcut, hp]
    exact .lexeme (Cut.rule_of_split hcut).written hrest

/-! ## Ranges of bytes -/

structure ByteRange where
  start : Nat
  stop : Nat

def ByteRange.Contains (r : ByteRange) (i : Nat) : Prop := r.start ≤ i ∧ i < r.stop

/-- The ranges are not empty and follow one another between `lo` and `hi`. -/
def ByteRange.Ordered (lo : Nat) : List ByteRange → Nat → Prop
  | [], hi => lo ≤ hi
  | r :: rs, hi => lo ≤ r.start ∧ r.start < r.stop ∧ Ordered r.stop rs hi

theorem ByteRange.Ordered.mono {lo lo' hi : Nat} {rs : List ByteRange} (hlo : lo' ≤ lo) (h : Ordered lo rs hi) :
    Ordered lo' rs hi := by
  cases rs with
  | nil => exact Nat.le_trans hlo h
  | cons r rs => exact ⟨Nat.le_trans hlo h.1, h.2⟩

def Text.isLayoutByte (b : UInt8) : Bool :=
  b == 0x20 || b == 0x09 || b == 0x0A || b == 0x0C || b == 0x0D

/-- The token is placed where the range begins, and is written in the range. -/
structure PlacedToken.Occupies (text : String) (t : PlacedToken) (r : ByteRange) : Prop where
  position : t.position = (LineStarts.ofText text).position r.start
  written : ∃ lexeme, text.toUTF8.extract r.start r.stop = (String.ofList lexeme).toUTF8 ∧
    t.token.Written lexeme

/-- The ranges hold the tokens of a text, in order, and all that is not layout. -/
structure Tiles (text : String) (tokens : List PlacedToken) (ranges : List ByteRange) : Prop where
  tokens : List.Forall₂ (PlacedToken.Occupies text) tokens ranges
  ordered : ByteRange.Ordered 0 ranges text.toUTF8.size
  layout : ∀ i (hi : i < text.toUTF8.size), (∀ r ∈ ranges, ¬ r.Contains i) →
    Text.isLayoutByte text.toUTF8[i] = true

theorem Text.toUTF8_size (text : String) : text.toUTF8.size = (bytes text.toList).length := by
  rw [← toUTF8_toList, Array.length_toList, ByteArray.size_data]

theorem Text.toUTF8_getElem? (text : String) {i : Nat} (hi : i < text.toUTF8.size) :
    (bytes text.toList)[i]? = some text.toUTF8[i] := by
  rw [← toUTF8_toList]
  simp [ByteArray.getElem_eq_getElem_data]

/-- The bytes of what stands between two parts of a text. -/
theorem Text.extract_toUTF8 {text : String} {cs ds es : List Char} (h : text.toList = cs ++ (ds ++ es)) :
    text.toUTF8.extract (bytes cs).length (bytes (cs ++ ds)).length = (String.ofList ds).toUTF8 := by
  apply ByteArray.ext
  apply Array.toList_inj.1
  rw [toUTF8_toList, ByteArray.data_extract, Array.toList_extract, toUTF8_toList, h, String.toList_ofList]
  simp [List.extract_eq_take_drop]

theorem Text.isLayoutByte_of_isLayout {c : Char} (h : isLayout c = true) :
    ∃ b, String.utf8EncodeChar c = [b] ∧ isLayoutByte b = true := by
  simp only [isLayout, Bool.or_eq_true, beq_iff_eq] at h
  rcases h with (((rfl | rfl) | rfl) | rfl) | rfl <;> exact ⟨_, rfl, rfl⟩

theorem Token.Written.ne_nil {token : Token} {lexeme : List Char} (h : token.Written lexeme) : lexeme ≠ [] := by
  cases h with
  | number hne => simp [hne]
  | multiline hopening =>
    rintro hnil
    simp at hnil
  | _ => exact List.cons_ne_nil _ _

/-- The ranges of the tokens after `before`. -/
theorem Laid.ranges {text : String} {before cs : List Char} {ts : List PlacedToken} (h : Laid before cs ts)
    (htext : text.toList = before ++ cs) :
    ∃ ranges, List.Forall₂ (PlacedToken.Occupies text) ts ranges ∧
      ByteRange.Ordered (Text.bytes before).length ranges text.toUTF8.size ∧
      ∀ i (hi : i < text.toUTF8.size), (Text.bytes before).length ≤ i →
        (∀ r ∈ ranges, ¬ r.Contains i) → Text.isLayoutByte text.toUTF8[i] = true := by
  induction h with
  | @done before =>
    have hsize : text.toUTF8.size = (Text.bytes before).length := by
      rw [Text.toUTF8_size, htext, List.append_nil]
    refine ⟨[], .nil, Nat.le_of_eq hsize.symm, ?_⟩
    intro i hi hle
    omega
  | @layout before c cs ts hc _ ih =>
    obtain ⟨ranges, htokens, hordered, hlayout⟩ := ih (by rw [htext, List.append_assoc]; rfl)
    obtain ⟨b, hbyte, hb⟩ := Text.isLayoutByte_of_isLayout hc
    have hsnoc : (Text.bytes (before ++ [c])).length = (Text.bytes before).length + 1 := by
      simp [hbyte]
    rw [hsnoc] at hordered hlayout
    refine ⟨ranges, htokens, hordered.mono (Nat.le_succ _), ?_⟩
    intro i hi hle hout
    by_cases hfirst : i = (Text.bytes before).length
    · subst hfirst
      have hget := Text.toUTF8_getElem? text hi
      rw [htext] at hget
      have hbyte : b = text.toUTF8[(Text.bytes before).length] := by simpa [hbyte] using hget
      rw [← hbyte, hb]
    · exact hlayout i hi (by omega) hout
  | @lexeme before token lexeme cs ts hw _ ih =>
    obtain ⟨ranges, htokens, hordered, hlayout⟩ := ih (by rw [htext, List.append_assoc])
    have hlt : (Text.bytes before).length < (Text.bytes (before ++ lexeme)).length := by
      have := List.length_pos_iff.2 (Text.bytes_ne_nil hw.ne_nil)
      rw [Text.bytes_append, List.length_append]
      omega
    let range : ByteRange := ⟨(Text.bytes before).length, (Text.bytes (before ++ lexeme)).length⟩
    have hoccupies : PlacedToken.Occupies text ⟨token, Position.start.advance before⟩ range :=
      ⟨(LineStarts.position_ofText htext).symm, lexeme, Text.extract_toUTF8 htext, hw⟩
    refine ⟨range :: ranges, .cons hoccupies htokens, ⟨Nat.le_refl _, hlt, hordered⟩, ?_⟩
    intro i hi hle hout
    obtain ⟨hfirst, hrest⟩ := List.forall_mem_cons.1 hout
    refine hlayout i hi ?_ hrest
    exact Nat.le_of_not_lt fun hin => hfirst ⟨hle, hin⟩

/-! ## The tokens of a range by itself -/

namespace Cut

theorem blockCommentEnd_append_delimiter {body : List Char} (h : ¬ ['*', '/'] <:+: body) :
    blockCommentEnd (body ++ ['*', '/']) = some (body ++ ['*', '/'], []) := by
  induction body with
  | nil => rfl
  | cons c body ih =>
    have htail := ih fun hin => h (List.infix_cons_iff.2 (.inr hin))
    rw [List.cons_append, blockCommentEnd, htail]
    · rfl
    · rintro cs rfl hcs
      -- the delimiter begins neither here nor at the end
      cases body with
      | nil => cases hcs
      | cons d body =>
        cases hcs
        exact h ⟨[], body, rfl⟩

theorem quotedEnd_of_escaped {body : List Char} (h : Text.Escaped body) :
    quotedEnd (body ++ ['"']) = some (body ++ ['"'], []) := by
  induction h with
  | nil => rfl
  | pair _ ih => simp [quotedEnd, ih, cons]
  | plain hquote hbackslash _ ih => simp [quotedEnd, hbackslash, ih, cons]

theorem multilineEnd_line {l : List Char} (hl : '\n' ∉ l) (cs : List Char) :
    multilineEnd false (l ++ '\n' :: cs) =
      (multilineEnd true cs).map fun cut => (l ++ '\n' :: cut.1, cut.2) := by
  induction l with
  | nil =>
    simp only [List.nil_append, multilineEnd]
    rfl
  | cons c l ih =>
    rw [List.mem_cons, not_or] at hl
    have hc : (c == '\n') = false := by simpa using Ne.symm hl.1
    rw [List.cons_append, multilineEnd, hc, ih hl.2, Option.map_map]
    · rfl
    all_goals exact nofun

theorem multilineEnd_of_not_mem {cs : List Char} (h : '\n' ∉ cs) : multilineEnd false cs = none := by
  cases hcut : multilineEnd false cs with
  | none => rfl
  | some cut =>
    obtain ⟨l, tail, htail, -⟩ := multilineEnd_eq_some hcut
    have happend := multilineEnd_append hcut
    rw [htail] at happend
    exact absurd (by rw [← happend]; simp) h

/-- A line that is no dot is gone through as the rest of a line is. -/
theorem multilineEnd_of_not_dotLine {cs : List Char} (h : ¬ Text.DotLine cs) :
    multilineEnd true cs = multilineEnd false cs := by
  cases cs with
  | nil => rfl
  | cons c cs =>
    have hwithin : multilineEnd false (c :: cs) = (multilineEnd (c == '\n') cs).map (cons c) := by
      rw [multilineEnd] <;> exact nofun
    rw [hwithin, multilineEnd]
    · rintro - rfl rfl
      exact h .final
    · rintro ds - rfl rfl
      exact h .lineFeed
    · rintro ds - rfl rfl
      exact h .crlf

theorem multilineEnd_of_dotted {cs : List Char} (h : Text.Dotted cs) : multilineEnd true cs = some (cs, []) := by
  induction h with
  | final | lineFeed | crlf => rfl
  | @line l cs hl hdot hreturn _ ih =>
    cases l with
    | nil => simp [multilineEnd, ih, cons]
    | cons c l =>
      rw [List.mem_cons, not_or] at hl
      have hc : (c == '\n') = false := by simpa using Ne.symm hl.1
      rw [List.cons_append, multilineEnd, hc, multilineEnd_line hl.2, ih]
      · rfl
      -- the line is neither a dot nor a dot and a carriage return
      all_goals
        intros
        rcases l with _ | ⟨d, _ | ⟨e, l⟩⟩ <;> simp_all

theorem numberEnd_append_quantifier {digits : List Char} {q : Option Char}
    (hdigits : ∀ c ∈ digits, c.isDigit = true) (hq : ∀ c ∈ q, isQuantifier c = true) :
    numberEnd (digits ++ q.toList) = (digits ++ q.toList, []) := by
  have hend : numberEnd (digits ++ (q.toList ++ [])) = (digits ++ q.toList, []) :=
    numberEnd_literal hdigits hq nofun
  rwa [List.append_nil] at hend

/-! What is written for a token is cut off whole when nothing follows, kind by kind. -/

theorem rule_identifier {c : Char} {cs : List Char} (hc : (c.isAlpha || c == '_') = true)
    (hcs : ∀ d ∈ cs, Text.isWord d = true) : Rule c cs ⟨.identifier, c :: cs, []⟩ := by
  have hword : ∀ d ∈ c :: cs, Text.isWord d = true := List.forall_mem_cons.2 ⟨(Text.isLetter_iff.1 hc).1, hcs⟩
  have hopens := Apart.nil.opensMultiline hword
  have hlongest := Apart.nil.longest hcs
  rw [List.append_nil] at hopens hlongest
  have hrule : Rule c cs _ := .identifier hc hopens
  rwa [hlongest] at hrule

theorem rule_tag {w : List Char} (hne : w ≠ []) (hw : ∀ c ∈ w, Text.isWord c = true) :
    Rule ':' w ⟨.tag, ':' :: w, []⟩ := by
  have hlongest := Apart.nil.longest hw
  rw [List.append_nil] at hlongest
  have hrule : Rule ':' w _ := .tag (by rwa [hlongest])
  rwa [hlongest] at hrule

theorem rule_number {digits : List Char} {q : Option Char} (hne : digits ≠ [])
    (hdigits : ∀ c ∈ digits, c.isDigit = true) (hq : ∀ c ∈ q, isQuantifier c = true) :
    ∃ c cs, digits ++ q.toList = c :: cs ∧ Rule c cs ⟨.number, digits ++ q.toList, []⟩ := by
  obtain ⟨c, ds, rfl⟩ := List.exists_cons_of_ne_nil hne
  have hrule : Rule c (ds ++ q.toList) _ := .number (hdigits c List.mem_cons_self)
  rw [← List.cons_append, numberEnd_append_quantifier hdigits hq] at hrule
  exact ⟨c, ds ++ q.toList, rfl, hrule⟩

theorem rule_quoted {cs : List Char} (h : Text.Escaped cs) :
    Rule '"' (cs ++ ['"']) ⟨.quoted, '"' :: (cs ++ ['"']), []⟩ :=
  .quoted (quotedEnd_of_escaped h)

theorem rule_multiline {opening l cs : List Char} (hopening : Text.lowerChars opening = multilineKeyword)
    (hl : '\n' ∉ l) (h : Text.Dotted cs) : ∃ c ds, opening ++ (l ++ '\n' :: cs) = c :: ds ∧
      Rule c ds ⟨.multiline, opening ++ (l ++ '\n' :: cs), []⟩ := by
  have hlength : opening.length = 5 := by
    simpa [Text.lowerChars, multilineKeyword] using congrArg List.length hopening
  obtain ⟨a, w, rfl⟩ := List.exists_cons_of_length_eq_add_one hlength
  have hw : w.length = 4 := by simpa using hlength
  have htake : (a :: (w ++ (l ++ '\n' :: cs))).take 5 = a :: w := List.take_left' hlength
  have hopens : opensMultiline (a :: (w ++ (l ++ '\n' :: cs))) = true := by
    rw [opensMultiline, htake, hopening]
    rfl
  have hend : multilineEnd false ((w ++ (l ++ '\n' :: cs)).drop 4) = some (l ++ '\n' :: cs, []) := by
    rw [List.drop_left' hw, multilineEnd_line hl, multilineEnd_of_dotted h]
    rfl
  have hrule : Rule a (w ++ (l ++ '\n' :: cs)) _ := .multiline hopens hend
  rw [htake] at hrule
  exact ⟨a, w ++ (l ++ '\n' :: cs), rfl, hrule⟩

theorem rule_comment {body : List Char} (h : '\n' ∉ body) : Rule '#' body ⟨.comment, '#' :: body, []⟩ := by
  have hline : ∀ c ∈ body, (c != '\n') = true := by
    intro c hc
    simpa using fun hc' : c = '\n' => h (hc' ▸ hc)
  have hlongest : longest (· != '\n') body = (body, []) := by
    rw [longest, List.takeWhile_eq_self_iff.2 hline, List.dropWhile_eq_nil_iff.2 hline]
  have hrule : Rule '#' body _ := .comment
  rwa [hlongest] at hrule

theorem rule_blockComment {body : List Char} (h : ¬ ['*', '/'] <:+: body) :
    Rule '/' ('*' :: (body ++ ['*', '/'])) ⟨.blockComment, '/' :: '*' :: (body ++ ['*', '/']), []⟩ :=
  .blockComment (blockCommentEnd_append_delimiter h)

end Cut

theorem Token.Written.rule {token : Token} {lexeme : List Char} (h : token.Written lexeme) :
    ∃ c cs kind, lexeme = c :: cs ∧ Cut.Rule c cs ⟨kind, lexeme, []⟩ ∧ token = Token.ofLexeme kind lexeme := by
  cases h with
  | @punct p => exact ⟨p.toChar, [], .punct p, rfl, .punct, rfl⟩
  | identifier hc hcs => exact ⟨_, _, .identifier, rfl, Cut.rule_identifier hc hcs, rfl⟩
  | tag hne hw => exact ⟨_, _, .tag, rfl, Cut.rule_tag hne hw, by rw [Text.lowercase_tag hw]; rfl⟩
  | number hne hdigits hq =>
    obtain ⟨c, cs, hlexeme, hrule⟩ := Cut.rule_number hne hdigits hq
    exact ⟨c, cs, .number, hlexeme, hrule, rfl⟩
  | quoted h => exact ⟨_, _, .quoted, rfl, Cut.rule_quoted h, rfl⟩
  | multiline hopening hl h =>
    obtain ⟨c, cs, hlexeme, hrule⟩ := Cut.rule_multiline hopening hl h
    exact ⟨c, cs, .multiline, hlexeme, hrule, rfl⟩
  | comment h => exact ⟨_, _, .comment, rfl, Cut.rule_comment h, rfl⟩
  | blockComment h => exact ⟨_, _, .blockComment, rfl, Cut.rule_blockComment h, by simp [Token.ofLexeme]⟩

theorem Token.Written.tokenize {token : Token} {lexeme : List Char} (h : token.Written lexeme) :
    tokenize (String.ofList lexeme) = .ok [⟨token, .start⟩] := by
  obtain ⟨c, cs, kind, hlexeme, hrule, rfl⟩ := h.rule
  have hsplit := Cut.split_eq_ok.2 hrule
  rw [MailSieve.tokenize, String.toList_ofList, hlexeme, tokenizeFrom_cut hrule.isLayout hsplit,
    tokenizeFrom, hlexeme]
  rfl

/-- Every byte of a text that has tokens is layout or belongs to one of them, and what token
that is can be told from its own bytes. -/
theorem tokenize_tiles (text : String) (tokens : List PlacedToken) (h : tokenize text = .ok tokens) :
    (∃ ranges, Tiles text tokens ranges) ∧
      ∀ token lexeme, Token.Written token lexeme →
        tokenize (String.ofList lexeme) = .ok [⟨token, .start⟩] := by
  refine ⟨?_, fun token lexeme hw => hw.tokenize⟩
  have hlaid : Laid [] text.toList tokens := laid_of_tokenizeFrom rfl h
  obtain ⟨ranges, htokens, hordered, hlayout⟩ := hlaid.ranges (List.nil_append _).symm
  exact ⟨ranges, htokens, hordered, fun i hi => hlayout i hi (Nat.zero_le i)⟩

def accented : String := "/* \u00e9t\u00e9 */ keep :IS \"\u00fc\\\"\"\n\t10K; # \u20ac "

def accentedTokens : List PlacedToken := [
  ⟨.blockComment "\u00e9t\u00e9", ⟨1, 1⟩⟩, ⟨.identifier "keep", ⟨1, 13⟩⟩, ⟨.tag ":is", ⟨1, 18⟩⟩,
  ⟨.quoted "\"\u00fc\\\"\"", ⟨1, 22⟩⟩, ⟨.number "10K", ⟨2, 2⟩⟩, ⟨.punct .semicolon, ⟨2, 5⟩⟩,
  ⟨.comment "\u20ac", ⟨2, 7⟩⟩]

theorem tokenize_tiles_accented :
    tokenize accented = .ok accentedTokens ∧ ∃ ranges, Tiles accented accentedTokens ranges := by
  have htext : tokenize accented = .ok accentedTokens := by cbv
  exact ⟨htext, (tokenize_tiles accented accentedTokens htext).1⟩

end MailSieve
