import MailSieve.Action
import MailSieve.Proofs.CheckedNumbers
import MailSieve.Text.Lowercase
import MailSieve.Token.Lexer

/-!
# Lexemes and what stands between them

A lexeme is cut off a text as it is if what follows cannot lengthen it. So a text
made of lexemes that stand apart has their tokens, and the names among the tokens of
any text are such that they can be written again.
-/

namespace MailSieve

/-! ## ASCII case -/

namespace Text

theorem isLower_toLower {c : Char} (h : c.isUpper = true) : c.toLower.isLower = true := by
  simp only [Char.isUpper, decide_eq_true_eq, ge_iff_le, UInt32.le_iff_toNat_le] at h
  simp only [Char.toLower, Char.isLower]
  split
  · simp [UInt32.le_iff_toNat_le, UInt32.toNat_add] at *
    omega
  · simp_all [UInt32.le_iff_toNat_le]

theorem isUpper_of_isLower {c : Char} (h : c.isLower = true) : c.isUpper = false := by
  simp [Char.isLower, Char.isUpper, UInt32.le_iff_toNat_le] at *
  omega

theorem toLower_eq_self {c : Char} (h : c.isUpper = false) : c.toLower = c := by
  unfold Char.toLower
  rw [dif_neg]
  simpa [Char.isUpper] using h

theorem toLower_eq_colon {c : Char} (h : c.toLower = ':') : c = ':' := by
  cases hu : c.isUpper with
  | true =>
    have hl := isLower_toLower hu
    rw [h] at hl
    cases hl
  | false => rwa [toLower_eq_self hu] at h

theorem isWord_of_isUpper {c : Char} (h : c.isUpper = true) : isWord c = true := by
  simp [isWord, Char.isAlphanum, Char.isAlpha, h]

theorem isWord_of_isLower {c : Char} (h : c.isLower = true) : isWord c = true := by
  simp [isWord, Char.isAlphanum, Char.isAlpha, h]

theorem isWord_of_isDigit {c : Char} (h : c.isDigit = true) : isWord c = true := by
  simp [isWord, Char.isAlphanum, h]

theorem isWord_toLower (c : Char) : isWord c.toLower = isWord c := by
  cases hu : c.isUpper with
  | true => rw [isWord_of_isUpper hu, isWord_of_isLower (isLower_toLower hu)]
  | false => rw [toLower_eq_self hu]

theorem toLower_toLower (c : Char) : c.toLower.toLower = c.toLower := by
  cases hu : c.isUpper with
  | true => exact toLower_eq_self (isUpper_of_isLower (isLower_toLower hu))
  | false => rw [toLower_eq_self hu, toLower_eq_self hu]

theorem ne_of_class {p : Char → Bool} {c d : Char} (hc : p c = true) (hd : p d = false) : c ≠ d := by
  rintro rfl
  rw [hc] at hd
  cases hd

end Text

/-! ## Cutting -/

structure Lexeme where
  kind : LexemeKind
  chars : List Char

def Lexeme.token (l : Lexeme) : Token := Token.ofLexeme l.kind l.chars

/-- The text does not go on with what would lengthen a word or a number before it. -/
def Apart (rest : List Char) : Prop := ∀ c ∈ rest.head?, Text.isWord c = false ∧ c ≠ ':'

theorem Apart.nil : Apart [] := fun _ h => nomatch h

theorem Apart.cons {c : Char} (hw : Text.isWord c = false) (hc : c ≠ ':') (cs : List Char) :
    Apart (c :: cs) := by
  rintro d ⟨⟩
  exact ⟨hw, hc⟩

/-- The lexeme is cut off as it is, whatever stands apart from it. -/
def Lexeme.Whole (l : Lexeme) : Prop :=
  ∃ c cs, l.chars = c :: cs ∧ Text.isLayout c = false ∧
    ∀ rest, Apart rest → Cut.split c (cs ++ rest) = .ok ⟨l.kind, l.chars, rest⟩

def Lexes (cs : List Char) (tokens : List Token) : Prop :=
  ∀ p, ∃ ts, tokenizeFrom p cs = .ok ts ∧ ts.map PlacedToken.token = tokens

theorem Lexes.nil : Lexes [] [] := fun _ => ⟨[], by rw [tokenizeFrom], rfl⟩

theorem Lexes.layout {c : Char} {cs : List Char} {tokens : List Token} (hc : Text.isLayout c = true)
    (h : Lexes cs tokens) : Lexes (c :: cs) tokens := by
  intro p
  rw [tokenizeFrom_layout hc]
  exact h (p.next c)

theorem Lexes.lexeme {l : Lexeme} {rest : List Char} {tokens : List Token} (hl : l.Whole)
    (hrest : Apart rest) (h : Lexes rest tokens) : Lexes (l.chars ++ rest) (l.token :: tokens) := by
  intro p
  obtain ⟨c, cs, hchars, hc, hcut⟩ := hl
  obtain ⟨ts, hts, htokens⟩ := h (p.advance l.chars)
  refine ⟨⟨l.token, p⟩ :: ts, ?_, by rw [List.map_cons, htokens]⟩
  rw [hchars, List.cons_append, tokenizeFrom_cut hc (hcut rest hrest), hts]
  rfl

def spaced : List Lexeme → List Char
  | [] => []
  | [l] => l.chars
  | l :: ls => l.chars ++ ' ' :: spaced ls

theorem Lexes.spaced {ls : List Lexeme} (h : ∀ l ∈ ls, l.Whole) : Lexes (spaced ls) (ls.map Lexeme.token) := by
  fun_induction MailSieve.spaced ls with
  | case1 => exact .nil
  | case2 l =>
    have hone := Lexes.nil.lexeme (h l (List.mem_singleton_self l)) .nil
    rwa [List.append_nil] at hone
  | case3 l ls hls ih =>
    have hrest := ih fun l' hl' => h l' (List.mem_cons_of_mem l hl')
    exact .lexeme (h l List.mem_cons_self) (.cons rfl (by decide) _) (.layout rfl hrest)

/-! ## Words -/

theorem Apart.dropWhile {rest : List Char} (h : Apart rest) : rest.dropWhile Text.isWord = rest := by
  cases rest with
  | nil => rfl
  | cons c cs => rw [List.dropWhile_cons_of_neg (by simp [(h c rfl).1])]

theorem Apart.longest {rest w : List Char} (h : Apart rest) (hw : ∀ c ∈ w, Text.isWord c = true) :
    Cut.longest Text.isWord (w ++ rest) = (w, rest) := by
  have hdrop : (w ++ rest).dropWhile Text.isWord = rest := by
    rw [List.dropWhile_append_of_pos hw, h.dropWhile]
  have happend := Cut.longest_append Text.isWord (w ++ rest)
  simp only [Cut.longest, hdrop] at happend ⊢
  rw [List.append_cancel_right happend]

theorem Text.isWord_of_toLower {c d : Char} (h : c.toLower = d) (hd : isWord d = true) : isWord c = true := by
  rw [← isWord_toLower, h, hd]

/-- The keyword of a multi-line string is a word before a colon. -/
theorem Cut.dropWhile_of_opensMultiline {cs : List Char} (h : opensMultiline cs = true) :
    (cs.dropWhile Text.isWord).head? = some ':' := by
  simp only [opensMultiline, beq_iff_eq, multilineKeyword, Text.lowerChars] at h
  match cs with
  | [] | [_] | [_, _] | [_, _, _] | [_, _, _, _] => simp at h
  | a :: b :: c :: d :: e :: cs =>
    simp only [List.take_succ_cons, List.take_zero, List.map_cons, List.map_nil, List.cons.injEq] at h
    obtain ⟨ha, hb, hc, hd, he, -⟩ := h
    have he := Text.toLower_eq_colon he
    subst he
    rw [List.dropWhile_cons_of_pos (Text.isWord_of_toLower ha rfl),
      List.dropWhile_cons_of_pos (Text.isWord_of_toLower hb rfl),
      List.dropWhile_cons_of_pos (Text.isWord_of_toLower hc rfl),
      List.dropWhile_cons_of_pos (Text.isWord_of_toLower hd rfl), List.dropWhile_cons_of_neg (by decide)]
    rfl

theorem Cut.length_of_opensMultiline {cs : List Char} (h : opensMultiline cs = true) : 5 ≤ cs.length := by
  have hlength : (Text.lowerChars (cs.take 5)).length = 5 := congrArg List.length (eq_of_beq h)
  rw [Text.lowerChars, List.length_map, List.length_take] at hlength
  omega

theorem Apart.opensMultiline {rest w : List Char} (h : Apart rest) (hw : ∀ c ∈ w, Text.isWord c = true) :
    Cut.opensMultiline (w ++ rest) = false := by
  rw [← Bool.not_eq_true]
  intro hopens
  have hcolon := Cut.dropWhile_of_opensMultiline hopens
  rw [List.dropWhile_append_of_pos hw, h.dropWhile] at hcolon
  exact (h ':' hcolon).2 rfl

theorem Punct.ofChar?_of_isWord {c : Char} (h : Text.isWord c = true) : ofChar? c = none := by
  cases hp : ofChar? c with
  | none => rfl
  | some p =>
    have hc := ofChar?_eq_some.1 hp
    subst hc
    cases p <;> cases h

theorem Text.isLayout_of_isWord {c : Char} (h : isWord c = true) : isLayout c = false := by
  rw [← Bool.not_eq_true]
  intro hl
  simp only [isLayout, Bool.or_eq_true, beq_iff_eq] at hl
  rcases hl with (((rfl | rfl) | rfl) | rfl) | rfl <;> cases h

theorem Cut.isDigit_of_isQuantifier {c : Char} (h : isQuantifier c = true) : c.isDigit = false := by
  simp only [isQuantifier, Bool.or_eq_true, beq_iff_eq] at h
  rcases h with ((((rfl | rfl) | rfl) | rfl) | rfl) | rfl <;> rfl

theorem Cut.isWord_of_isQuantifier {c : Char} (h : isQuantifier c = true) : Text.isWord c = true := by
  simp only [isQuantifier, Bool.or_eq_true, beq_iff_eq] at h
  rcases h with ((((rfl | rfl) | rfl) | rfl) | rfl) | rfl <;> rfl

/-- A number ends before what is neither a digit nor a quantifier. -/
theorem Cut.numberEnd_literal {ds rest : List Char} {q : Option Char} (hds : ∀ c ∈ ds, c.isDigit = true)
    (hq : ∀ c ∈ q, isQuantifier c = true)
    (hrest : ∀ c ∈ rest.head?, c.isDigit = false ∧ isQuantifier c = false) :
    numberEnd (ds ++ (q.toList ++ rest)) = (ds ++ q.toList, rest) := by
  unfold numberEnd
  rw [List.takeWhile_append_of_pos hds, List.dropWhile_append_of_pos hds]
  cases q with
  | some c =>
    have hc := hq c rfl
    simp [isDigit_of_isQuantifier hc, hc]
  | none =>
    cases rest with
    | nil => simp
    | cons c cs =>
      obtain ⟨hdigit, hquantifier⟩ := hrest c rfl
      simp [hdigit, hquantifier]

theorem Apart.numberEnd {rest ds : List Char} (h : Apart rest) (hds : ∀ c ∈ ds, c.isDigit = true) :
    Cut.numberEnd (ds ++ rest) = (ds, rest) := by
  have hrest : ∀ c ∈ rest.head?, c.isDigit = false ∧ Cut.isQuantifier c = false := by
    intro c hc
    have hword := (h c hc).1
    constructor
    · simp only [Text.isWord, Char.isAlphanum, Bool.or_eq_false_iff] at hword
      exact hword.1.2
    · rw [← Bool.not_eq_true]
      intro hquantifier
      rw [Cut.isWord_of_isQuantifier hquantifier] at hword
      cases hword
  have hend : Cut.numberEnd (ds ++ (Option.toList none ++ rest)) = (ds ++ Option.toList none, rest) :=
    Cut.numberEnd_literal hds nofun hrest
  rwa [Option.toList_none, List.nil_append, List.append_nil] at hend

theorem Cut.head_of_opensMultiline {c : Char} {cs : List Char} (h : opensMultiline (c :: cs) = true) :
    c = 't' ∨ c = 'T' := by
  have hkeyword := eq_of_beq h
  simp only [Text.lowerChars, multilineKeyword, List.take_succ_cons, List.map_cons, List.cons.injEq] at hkeyword
  obtain ⟨hc, -⟩ := hkeyword
  cases hupper : c.isUpper with
  | false => exact .inl (by rwa [Text.toLower_eq_self hupper] at hc)
  | true =>
    have hlower : ¬ c.isLower = true := by
      intro hlower
      rw [Text.isUpper_of_isLower hlower] at hupper
      cases hupper
    right
    calc c = c.toUpper := (Char.toUpper_eq_of_not_isLower hlower).symm
      _ = c.toLower.toUpper := c.toUpper_toLower_eq_toUpper.symm
      _ = 'T' := by rw [hc]; rfl

/-- A name begins with a word character that is no digit. -/
theorem Text.isLetter_iff {c : Char} : (c.isAlpha || c == '_') = true ↔ isWord c = true ∧ c.isDigit = false := by
  constructor
  · intro h
    constructor
    · simp only [isWord, Char.isAlphanum, Bool.or_eq_true] at h ⊢
      exact h.imp_left .inl
    · rw [← Bool.not_eq_true]
      intro hd
      simp [Char.isAlpha, Char.isUpper, Char.isLower, Char.isDigit, UInt32.le_iff_toNat_le] at h hd
      rcases h with h | rfl
      · omega
      · simp at hd
  · rintro ⟨hw, hd⟩
    simpa [isWord, Char.isAlphanum, hd] using hw

/-! ## One lexeme of each kind -/

namespace Cut

section
variable {c : Char} {cs : List Char} {cut : List Char × List Char}

theorem split_punct (p : Punct) (cs : List Char) :
    split p.toChar cs = .ok (found (.punct p) [p.toChar] ([], cs)) := by
  simp only [split, Punct.ofChar?_eq_some.2 rfl]

theorem split_comment (cs : List Char) : split '#' cs = .ok (found .comment ['#'] (longest (· != '\n') cs)) := rfl

theorem split_blockComment (hend : blockCommentEnd cs = some cut) :
    split '/' ('*' :: cs) = .ok (found .blockComment ['/', '*'] cut) := by
  have hpunct : Punct.ofChar? '/' = none := rfl
  simp [split, hpunct, hend]

theorem split_quoted (hend : quotedEnd cs = some cut) : split '"' cs = .ok (found .quoted ['"'] cut) := by
  have hpunct : Punct.ofChar? '"' = none := rfl
  simp [split, hpunct, hend]

theorem split_tag (hne : (longest Text.isWord cs).1 ≠ []) :
    split ':' cs = .ok (found .tag [':'] (longest Text.isWord cs)) := by
  have hpunct : Punct.ofChar? ':' = none := rfl
  have hopens : opensMultiline (':' :: cs) = false := rfl
  rcases hlongest : longest Text.isWord cs with ⟨w, rest⟩
  rw [hlongest] at hne
  cases w with
  | nil => exact absurd rfl hne
  | cons d w => simp [split, hpunct, hopens, hlongest]

/-- A word character begins a multi-line string, a number or an identifier. -/
theorem split_of_isWord (hc : Text.isWord c = true) (cs : List Char) :
    split c cs =
      if opensMultiline (c :: cs) then
        match multilineEnd false (cs.drop 4) with
        | some cut => .ok (found .multiline ((c :: cs).take 5) cut)
        | none => .error .openMultiline
      else if c.isDigit then .ok (found .number [] (numberEnd (c :: cs)))
      else .ok (found .identifier [c] (longest Text.isWord cs)) := by
  have hne : ∀ d, Text.isWord d = false → c ≠ d := fun d => Text.ne_of_class hc
  have hletter : ∀ hd : ¬ c.isDigit = true, (c.isAlpha || c == '_') = true :=
    fun hd => Text.isLetter_iff.2 ⟨hc, Bool.eq_false_iff.2 hd⟩
  simp only [split, Punct.ofChar?_of_isWord hc, hne '#' rfl, hne '/' rfl, hne '"' rfl, hne ':' rfl, if_false]
  split
  · rfl
  · split
    · rfl
    · next hd => rw [if_pos (hletter hd)]

theorem isWord_of_opensMultiline (h : opensMultiline (c :: cs) = true) : Text.isWord c = true := by
  rcases head_of_opensMultiline h with rfl | rfl <;> rfl

theorem split_multiline (hopens : opensMultiline (c :: cs) = true)
    (hend : multilineEnd false (cs.drop 4) = some cut) :
    split c cs = .ok (found .multiline ((c :: cs).take 5) cut) := by
  rw [split_of_isWord (isWord_of_opensMultiline hopens), if_pos hopens, hend]

theorem split_number (hc : c.isDigit = true) (cs : List Char) :
    split c cs = .ok (found .number [] (numberEnd (c :: cs))) := by
  have hopens : ¬ opensMultiline (c :: cs) = true := by
    intro hopens
    rcases head_of_opensMultiline hopens with rfl | rfl <;> cases hc
  rw [split_of_isWord (Text.isWord_of_isDigit hc), if_neg hopens, if_pos hc]

theorem split_identifier (hletter : (c.isAlpha || c == '_') = true) (hopens : opensMultiline (c :: cs) = false) :
    split c cs = .ok (found .identifier [c] (longest Text.isWord cs)) := by
  obtain ⟨hword, hdigit⟩ := Text.isLetter_iff.1 hletter
  rw [split_of_isWord hword, hopens, hdigit]
  rfl

end

theorem split_eq_ok {c : Char} {cs : List Char} {cut : Cut} : split c cs = .ok cut ↔ Rule c cs cut := by
  constructor
  · exact rule_of_split
  · intro h
    cases h with
    | punct => exact split_punct _ cs
    | comment => exact split_comment cs
    | blockComment hend => exact split_blockComment hend
    | quoted hend => exact split_quoted hend
    | multiline hopens hend => exact split_multiline hopens hend
    | tag hne => exact split_tag hne
    | number hdigit => exact split_number hdigit cs
    | identifier hletter hopens => exact split_identifier hletter hopens

/-- No lexeme begins with layout. -/
theorem Rule.isLayout {c : Char} {cs : List Char} {cut : Cut} (h : Rule c cs cut) : Text.isLayout c = false := by
  cases h with
  | @punct p => cases p <;> rfl
  | comment | blockComment | quoted | tag => rfl
  | multiline hopens => exact Text.isLayout_of_isWord (isWord_of_opensMultiline hopens)
  | number hdigit => exact Text.isLayout_of_isWord (Text.isWord_of_isDigit hdigit)
  | identifier hletter => exact Text.isLayout_of_isWord (Text.isLetter_iff.1 hletter).1

end Cut

/-! ## Strings -/

theorem Cut.quotedEnd_escape (cs rest : List Char) :
    quotedEnd (Action.escape cs ++ '"' :: rest) = some (Action.escape cs ++ ['"'], rest) := by
  induction cs with
  | nil => rfl
  | cons c cs ih =>
    by_cases hc : c = '\\' ∨ c = '"'
    · rw [Action.escape, if_pos hc]
      show (quotedEnd (Action.escape cs ++ '"' :: rest)).map _ = _
      rw [ih]
      rfl
    · rw [Action.escape, if_neg hc]
      rw [not_or] at hc
      simp [quotedEnd, hc, ih, cons]

theorem Literal.unescape_escape (cs : List Char) : unescape (Action.escape cs) = cs := by
  induction cs with
  | nil => rfl
  | cons c cs ih =>
    by_cases hc : c = '\\' ∨ c = '"'
    · rw [Action.escape, if_pos hc]
      show c :: unescape (Action.escape cs) = _
      rw [ih]
    · rw [Action.escape, if_neg hc]
      rw [not_or] at hc
      simp [unescape, hc, ih]

theorem Literal.string_quote (s : String) : string (Action.quote s) = .ok s := by
  have hbody : quotedBody? (Action.quote s).toList = some (Action.escape s.toList) := by
    simp [Action.quote, quotedBody?]
  simp only [string, hbody]
  rw [unescape_escape, String.ofList_toList]

/-! ## Numbers -/

namespace Literal

theorem quantified_of_isDigit {ds : List Char} (hds : ∀ c ∈ ds, c.isDigit = true) : quantified ds = (ds, 1) := by
  have hlast : ds.getLast?.bind quantifier? = none := by
    cases hl : ds.getLast? with
    | none => rfl
    | some c =>
      have hne : ∀ d, d.isDigit = false → c ≠ d :=
        fun d => Text.ne_of_class (hds c (List.mem_of_getLast? hl))
      simp [quantifier?, hne 'K' rfl, hne 'k' rfl, hne 'M' rfl, hne 'm' rfl, hne 'G' rfl, hne 'g' rfl]
  simp only [quantified, hlast]

theorem number_toDigits {n : Nat} (h : n < numberBound) :
    number (String.ofList (Nat.toDigits 10 n)) = .ok n := by
  have hdigits : ∀ c ∈ Nat.toDigits 10 n, c.isDigit = true :=
    fun c hc => Nat.isDigit_of_mem_toDigits (by decide) (by decide) hc
  have hvalue : Text.digitsValue (Nat.toDigits 10 n) = n := by
    rw [Text.digitsValue, ← Nat.ofDigitChars_eq_foldl, Nat.ofDigitChars_ten_toDigits]
  have hquantified : quantified (String.ofList (Nat.toDigits 10 n)).toList = (Nat.toDigits 10 n, 1) := by
    rw [String.toList_ofList, quantified_of_isDigit hdigits]
  rw [number_of_quantified hquantified hdigits Nat.toDigits_ne_nil (by decide), hvalue]
  simp [h]

end Literal

/-! ## Names -/

namespace Text

def isIdentifier : List Char → Bool
  | [] => false
  | c :: cs => !c.isDigit && (c :: cs).all isWord

def isTag : List Char → Bool
  | ':' :: c :: cs => (c :: cs).all isWord && lowerChars (c :: cs) == c :: cs
  | _ => false

theorem isTag_eq_true {cs : List Char} : isTag cs = true ↔
    ∃ w, cs = ':' :: w ∧ w ≠ [] ∧ (∀ c ∈ w, isWord c = true) ∧ lowerChars w = w := by
  unfold isTag
  split
  · next c cs => simp
  · next hcs =>
    refine ⟨nofun, ?_⟩
    rintro ⟨_ | ⟨c, cs⟩, rfl, hne, -⟩
    · exact absurd rfl hne
    · exact absurd rfl (hcs c cs)

theorem isAscii_of_isWord {c : Char} (h : isWord c = true) : c.toNat < 0x80 := by
  by_cases hc : c = '_'
  · subst hc
    decide
  · simp [isWord, Char.isAlphanum, Char.isAlpha, Char.isUpper, Char.isLower, Char.isDigit, hc,
      UInt32.le_iff_toNat_le] at h
    omega

theorem isAscii_of_isDigit {c : Char} (h : c.isDigit = true) : c.toNat < 0x80 :=
  isAscii_of_isWord (by simp [isWord, Char.isAlphanum, h])

theorem isAscii_of_isLayout {c : Char} (h : isLayout c = true) : c.toNat < 0x80 := by
  simp only [isLayout, Bool.or_eq_true, beq_iff_eq] at h
  rcases h with (((rfl | rfl) | rfl) | rfl) | rfl <;> decide

theorem lowercaseAfter_of_ascii {cs : List Char} (h : ∀ c ∈ cs, c.toNat < 0x80) (before : List Char) :
    lowercaseAfter before cs = lowerChars cs := by
  induction cs generalizing before with
  | nil => rfl
  | cons c cs ih =>
    obtain ⟨hascii, hcs⟩ := List.forall_mem_cons.1 h
    have hsigma : c ≠ capitalSigma := by
      rintro rfl
      exact absurd hascii (by decide)
    rw [lowercaseAfter, if_neg hsigma, lowercaseChar, if_pos hascii, ih hcs]
    rfl

/-- Tags are in ASCII, where the case of a letter is its own matter. -/
theorem lowercase_tag {w : List Char} (hw : ∀ c ∈ w, isWord c = true) :
    lowercase (String.ofList (':' :: w)) = String.ofList (lowerChars (':' :: w)) := by
  have hascii : ∀ c ∈ ':' :: w, c.toNat < 0x80 :=
    List.forall_mem_cons.2 ⟨by decide, fun c hc => isAscii_of_isWord (hw c hc)⟩
  rw [lowercase, String.toList_ofList, lowercaseAfter_of_ascii hascii]

theorem lowercase_of_isTag {name : String} (h : isTag name.toList = true) : lowercase name = name := by
  obtain ⟨w, hn, -, hw, hlower⟩ := isTag_eq_true.1 h
  have hname : name = String.ofList (':' :: w) := by rw [← hn, String.ofList_toList]
  rw [hname, lowercase_tag hw]
  exact congrArg (fun v => String.ofList (':' :: v)) hlower

theorem isTag_lowerChars {w : List Char} (hne : w ≠ []) (hw : ∀ c ∈ w, isWord c = true) :
    isTag (lowerChars (':' :: w)) = true := by
  refine isTag_eq_true.2 ⟨lowerChars w, rfl, by simpa [lowerChars] using hne, fun c hc => ?_, ?_⟩
  · obtain ⟨d, hd, rfl⟩ := List.mem_map.1 hc
    rw [isWord_toLower, hw d hd]
  · simp only [lowerChars, List.map_map]
    exact List.map_congr_left fun d _ => toLower_toLower d

end Text

/-! ## The lexemes of a script -/

namespace Lexeme

def identifier (name : String) : Lexeme := ⟨.identifier, name.toList⟩

def tag (name : String) : Lexeme := ⟨.tag, name.toList⟩

def string (s : String) : Lexeme := ⟨.quoted, (Action.quote s).toList⟩

def number (n : Nat) : Lexeme := ⟨.number, Nat.toDigits 10 n⟩

def punct (p : Punct) : Lexeme := ⟨.punct p, [p.toChar]⟩

theorem chars_string (s : String) : (string s).chars = (Action.quote s).toList := by rw [string]

theorem token_identifier (name : String) : (identifier name).token = .identifier name := by
  simp [token, identifier, Token.ofLexeme]

theorem token_string (s : String) : (string s).token = .quoted (Action.quote s) := by
  simp [token, string, Token.ofLexeme]

theorem token_tag {name : String} (h : Text.isTag name.toList = true) : (tag name).token = .tag name := by
  obtain ⟨w, hn, -, -, hw⟩ := Text.isTag_eq_true.1 h
  have hlower : Text.lowerChars name.toList = name.toList := by
    rw [hn]
    exact congrArg (':' :: ·) hw
  simp [token, tag, Token.ofLexeme, hlower]

theorem whole_identifier {name : String} (h : Text.isIdentifier name.toList = true) : (identifier name).Whole := by
  match hn : name.toList with
  | [] => rw [hn] at h; cases h
  | c :: cs =>
    simp only [hn, Text.isIdentifier, Bool.and_eq_true, Bool.not_eq_true', List.all_eq_true] at h
    obtain ⟨hdigit, hw⟩ := h
    obtain ⟨hc, hcs⟩ := List.forall_mem_cons.1 hw
    refine ⟨c, cs, hn, Text.isLayout_of_isWord hc, fun rest hrest => ?_⟩
    have hopens : Cut.opensMultiline (c :: (cs ++ rest)) = false := hrest.opensMultiline hw
    have hchars : (identifier name).chars = c :: cs := hn
    rw [Cut.split_identifier (Text.isLetter_iff.2 ⟨hc, hdigit⟩) hopens, hrest.longest hcs, hchars]
    rfl

theorem whole_number (n : Nat) : (number n).Whole := by
  have hdigits : ∀ c ∈ Nat.toDigits 10 n, c.isDigit = true :=
    fun c hc => Nat.isDigit_of_mem_toDigits (by decide) (by decide) hc
  match hn : Nat.toDigits 10 n with
  | [] => exact absurd hn Nat.toDigits_ne_nil
  | c :: cs =>
    rw [hn] at hdigits
    have hc := hdigits c List.mem_cons_self
    refine ⟨c, cs, hn, Text.isLayout_of_isWord (Text.isWord_of_isDigit hc), fun rest hrest => ?_⟩
    have hchars : (number n).chars = c :: cs := hn
    rw [Cut.split_number hc, ← List.cons_append, hrest.numberEnd hdigits, hchars]
    rfl

theorem whole_tag {name : String} (h : Text.isTag name.toList = true) : (tag name).Whole := by
  obtain ⟨w, hn, hne, hw, -⟩ := Text.isTag_eq_true.1 h
  refine ⟨':', w, hn, rfl, fun rest hrest => ?_⟩
  have hlongest := hrest.longest hw
  have hchars : (tag name).chars = ':' :: w := hn
  rw [Cut.split_tag (by rwa [hlongest]), hlongest, hchars]
  rfl

theorem whole_string (s : String) : (string s).Whole := by
  have hs : (string s).chars = '"' :: (Action.escape s.toList ++ ['"']) := by
    rw [chars_string, Action.quote, String.toList_ofList, List.cons_append]
  refine ⟨'"', Action.escape s.toList ++ ['"'], hs, rfl, fun rest _ => ?_⟩
  have hend : Cut.quotedEnd (Action.escape s.toList ++ ['"'] ++ rest) =
      some (Action.escape s.toList ++ ['"'], rest) := by
    rw [List.append_assoc]
    exact Cut.quotedEnd_escape s.toList rest
  rw [Cut.split_quoted hend, hs]
  rfl

theorem whole_punct (p : Punct) : (punct p).Whole := by
  refine ⟨p.toChar, [], rfl, by cases p <;> rfl, fun rest hrest => ?_⟩
  exact Cut.split_punct p rest

end Lexeme

inductive Lexeme.Proper : Lexeme → Prop
  | identifier {name} (h : Text.isIdentifier name.toList = true) : Proper (.identifier name)
  | tag {name} (h : Text.isTag name.toList = true) : Proper (.tag name)
  | string {s} : Proper (.string s)
  | number {n} : Proper (.number n)
  | punct {p} : Proper (.punct p)

theorem Lexeme.Proper.whole {l : Lexeme} (h : l.Proper) : l.Whole := by
  cases h with
  | identifier h => exact whole_identifier h
  | tag h => exact whole_tag h
  | string => exact whole_string _
  | number => exact whole_number _
  | punct => exact whole_punct _

theorem Lexeme.Proper.isComment {l : Lexeme} (h : l.Proper) : l.token.isComment = false := by
  cases h <;> rfl

/-! ## The tokens of a text -/

def Token.Proper : Token → Prop
  | .identifier name => Text.isIdentifier name.toList = true
  | .tag name => Text.isTag name.toList = true
  | _ => True

theorem Cut.split_proper {c : Char} {cs : List Char} {cut : Cut} (h : split c cs = .ok cut) :
    (Token.ofLexeme cut.kind cut.lexeme).Proper := by
  have hword : ∀ d ∈ (longest Text.isWord cs).1, Text.isWord d = true := List.all_eq_true.1 List.all_takeWhile
  cases rule_of_split h with
  | tag hne =>
    show Text.isTag (String.ofList (Text.lowerChars (':' :: (longest Text.isWord cs).1))).toList = true
    rw [String.toList_ofList]
    exact Text.isTag_lowerChars hne hword
  | identifier hletter =>
    obtain ⟨hc, hdigit⟩ := Text.isLetter_iff.1 hletter
    have hname : (c :: (longest Text.isWord cs).1).all Text.isWord = true :=
      List.all_eq_true.2 (List.forall_mem_cons.2 ⟨hc, hword⟩)
    show Text.isIdentifier (String.ofList (c :: (longest Text.isWord cs).1)).toList = true
    rw [String.toList_ofList, Text.isIdentifier, hdigit, hname]
    rfl
  | _ => trivial

theorem tokenizeFrom_proper {p : Position} {cs : List Char} {ts : List PlacedToken}
    (h : tokenizeFrom p cs = .ok ts) : ∀ t ∈ ts, t.token.Proper := by
  fun_induction tokenizeFrom p cs generalizing ts with
  | case1 => cases h; exact nofun
  | case2 p c cs hc ih => exact ih h
  | case3 p c cs hc fault hcut => cases h
  | case4 p c cs hc cut hcut e he ih => cases h
  | case5 p c cs hc cut hcut us hus ih =>
    cases h
    intro t ht
    rcases List.mem_cons.1 ht with rfl | ht
    · exact Cut.split_proper hcut
    · exact ih hus t ht

end MailSieve
