import MailSieve.Proofs.ByteLoops

/-!
# Tokens begin and end between characters

The lexer by offsets never reads past the end of a text and never cuts a character in two: each
token begins and ends between two characters, where the cut of the characters has its lexeme. So
it always gives a result, and the one that `MailSieve.tokenize` gives.
-/

namespace MailSieve

/-- The keyword of a multi-line string is in ASCII. -/
theorem Cut.isAscii_of_opensMultiline {cs : List Char} (h : opensMultiline cs = true) :
    ∀ c ∈ cs.take 5, c.toNat < 0x80 := by
  intro c hc
  have hmem : c.toLower ∈ multilineKeyword := by
    have hkeyword : Text.lowerChars (cs.take 5) = multilineKeyword := eq_of_beq h
    rw [← hkeyword]
    exact List.mem_map_of_mem hc
  simp only [multilineKeyword, List.mem_cons, List.not_mem_nil, or_false] at hmem
  rcases hmem with hc | hc | hc | hc | hc
  case inr.inr.inr.inr =>
    rw [Text.toLower_eq_colon hc]
    decide
  all_goals exact Text.isAscii_of_isWord (Text.isWord_of_toLower hc rfl)

namespace ByteLexer

section
variable {text : String} {i : Nat} {b : UInt8} {c : Char} {cs ds : List Char}

/-- After the two bytes of an escape the loop of a quoted string may stand within a character. -/
theorem not_isValid_of_escape (h : At text i ('\\' :: c :: cs)) (hc : 0x80 ≤ c.toNat) :
    ¬ String.Pos.Raw.IsValid text ⟨i + 2⟩ := by
  intro hvalid
  have hsize : 2 ≤ (String.utf8EncodeChar c).length := by
    have hpos := c.utf8Size_pos
    have hone : c.utf8Size ≠ 1 := by
      rw [Ne, Char.utf8Size_eq_one_iff, UInt32.le_iff_toNat_le]
      exact Nat.not_le_of_lt hc
    rw [String.length_utf8EncodeChar]
    omega
  have hbackslash : (String.utf8EncodeChar '\\').length = 1 := rfl
  obtain ⟨xs, ys, hsplit, hlength⟩ := h.of_isValid (Nat.le_add_right i 2) hvalid
  match xs with
  | [] => simp at hlength
  | [_] =>
    cases hsplit
    simp [hbackslash] at hlength
  | _ :: _ :: _ =>
    cases hsplit
    simp only [Text.bytes_cons, List.length_append, hbackslash] at hlength
    omega

/-! ## One token -/

def placed (i : Nat) (cut : Except LexFault Cut) : Found :=
  cut.map fun cut => (Token.ofLexeme cut.kind cut.lexeme, i + (Text.bytes cut.lexeme).length)

theorem placed_ok {cut : Cut} {token : Token} {next : Nat} (htoken : token = Token.ofLexeme cut.kind cut.lexeme)
    (hnext : next = i + (Text.bytes cut.lexeme).length) : .ok (token, next) = placed i (.ok cut) := by
  rw [placed, Except.map, htoken, hnext]

theorem length_bytes_ascii (h : ∀ c ∈ cs, c.toNat < 0x80) : (Text.bytes cs).length = cs.length := by
  induction cs with
  | nil => rfl
  | cons c cs ih =>
    obtain ⟨hc, hcs⟩ := List.forall_mem_cons.1 h
    rw [Text.bytes_cons, Text.utf8EncodeChar_of_ascii hc, List.length_append, ih hcs, List.length_singleton,
      List.length_cons, Nat.add_comm]

theorem add_length_bytes_cons (hc : c.toNat < 0x80) (i : Nat) (cs : List Char) :
    i + 1 + (Text.bytes cs).length = i + (Text.bytes (c :: cs)).length := by
  rw [Text.bytes_cons, Text.utf8EncodeChar_of_ascii hc, List.length_append, ← Nat.add_assoc]
  rfl

theorem commentAt_eq (h : At text i ('#' :: cs)) :
    commentAt text i = .ok (placed i (.ok (Cut.found .comment ['#'] (Cut.longest (· != '\n') cs)))) := by
  have hbody := h.tail (by decide)
  have hskip := skipWhile_eq (tells_ne (d := '\n') (by decide)) hbody
  rw [← List.takeWhile_append_dropWhile (p := (· != '\n')) (l := cs)] at hbody
  rw [commentAt, hskip, ok_bind, hbody.slice, ok_bind, String.toList_ofList]
  exact congrArg Except.ok (placed_ok rfl (add_length_bytes_cons (by decide) i _))

theorem blockCommentAt_eq (h : At text i ('/' :: '*' :: cs)) :
    blockCommentAt text i = .ok (placed i (match Cut.blockCommentEnd cs with
      | some cut => .ok (Cut.found .blockComment ['/', '*'] cut)
      | none => .error .openBlockComment)) := by
  have hbody : At text (i + 2) cs := (h.tail (by decide)).tail (by decide)
  rw [blockCommentAt, commentEnd_eq hbody, ok_bind]
  cases hcut : Cut.blockCommentEnd cs with
  | none => rfl
  | some cut =>
    obtain ⟨body, hlexeme, -⟩ := Cut.blockCommentEnd_eq_some hcut
    have happend := Cut.blockCommentEnd_append hcut
    rw [hlexeme, List.append_assoc] at happend
    rw [← happend] at hbody
    have hlength : (Text.bytes cut.1).length = (Text.bytes body).length + 2 := by
      rw [hlexeme, Text.bytes_append, List.length_append]
      rfl
    have hstop : i + 2 + (Text.bytes cut.1).length - 2 = i + 2 + (Text.bytes body).length := by omega
    simp only [endOf, Option.map_some, hstop]
    rw [hbody.slice, ok_bind, String.toList_ofList]
    refine congrArg Except.ok (placed_ok ?_ ?_)
    · simp [Token.ofLexeme, Cut.found, hlexeme]
    · rw [Cut.found, Text.bytes_append, List.length_append, hlength]
      show _ = i + (2 + _)
      omega

theorem stringAt_eq (h : At text i ('"' :: cs)) :
    stringAt text i = .ok (placed i (match Cut.quotedEnd cs with
      | some cut => .ok (Cut.found .quoted ['"'] cut)
      | none => .error .openString)) := by
  rw [stringAt, stringEnd_eq (h.tail (by decide)), ok_bind]
  cases hcut : Cut.quotedEnd cs with
  | none => rfl
  | some cut =>
    rw [← Cut.quotedEnd_append hcut] at h
    have hlexeme : At text i (('"' :: cut.1) ++ cut.2) := h
    simp only [endOf, Option.map_some]
    rw [add_length_bytes_cons (c := '"') (by decide), hlexeme.slice]
    rfl

theorem length_bytes_keyword (h : Cut.opensMultiline cs = true) : (Text.bytes (cs.take 5)).length = 5 := by
  rw [length_bytes_ascii (Cut.isAscii_of_opensMultiline h)]
  exact List.length_take_of_le (Cut.length_of_opensMultiline h)

theorem opensMultiline_eq (h : At text i cs) : opensMultiline text i = Cut.opensMultiline cs := by
  rw [Bool.eq_iff_iff]
  constructor
  · intro hopens
    cases hs : slice? text i (i + 5) with
    | none =>
      rw [opensMultiline, hs] at hopens
      cases hopens
    | some s =>
      obtain ⟨hle, -, hvalid, -⟩ := slice?_eq_some.1 hs
      obtain ⟨xs, ys, rfl, hstop⟩ := h.of_isValid hle hvalid
      rw [opensMultiline, hstop, h.slice?, Option.any_some, Text.sameFolded, String.toList_ofList] at hopens
      have hlength : xs.length = 5 := by simpa [Text.lowerChars] using congrArg List.length (eq_of_beq hopens)
      rw [Cut.opensMultiline, ← hlength, List.take_left]
      exact hopens
  · intro hopens
    have hkeyword := length_bytes_keyword hopens
    rw [← List.take_append_drop 5 cs] at h
    have hs := h.slice?
    rw [hkeyword] at hs
    rw [opensMultiline, hs, Option.any_some, Text.sameFolded, String.toList_ofList]
    exact hopens

theorem multilineAt_eq (h : At text i (c :: cs)) (hopens : Cut.opensMultiline (c :: cs) = true) :
    multilineAt text i = .ok (placed i (match Cut.multilineEnd false (cs.drop 4) with
      | some cut => .ok (Cut.found .multiline ((c :: cs).take 5) cut)
      | none => .error .openMultiline)) := by
  have hkeyword := length_bytes_keyword hopens
  have hsplit : At text i ((c :: cs).take 5 ++ cs.drop 4) := by
    rwa [← List.take_append_drop 5 (c :: cs)] at h
  have hline := hsplit.append
  rw [hkeyword] at hline
  rw [multilineAt, ← bind_assoc, nextLine_multilineEnd hline fun _ hds => multilineEnd_eq hds, ok_bind]
  cases hcut : Cut.multilineEnd false (cs.drop 4) with
  | none => rfl
  | some cut =>
    rw [← Cut.multilineEnd_append hcut, ← List.append_assoc] at hsplit
    have hstop : i + 5 + (Text.bytes cut.1).length = i + (Text.bytes ((c :: cs).take 5 ++ cut.1)).length := by
      rw [Text.bytes_append, List.length_append, hkeyword, Nat.add_assoc]
    simp only [endOf, Option.map_some, hstop]
    rw [hsplit.slice]
    rfl

theorem tagAt_eq (h : At text i (':' :: cs)) :
    tagAt text i = .ok (placed i (match Cut.longest Text.isWord cs with
      | ([], _) => .error .bareColon
      | cut => .ok (Cut.found .tag [':'] cut))) := by
  have hskip := skipWhile_eq (tells_isAscii fun _ => Text.isAscii_of_isWord) (h.tail (by decide))
  have hw : ∀ c ∈ cs.takeWhile Text.isWord, Text.isWord c = true := List.all_eq_true.1 List.all_takeWhile
  rw [tagAt, hskip, ok_bind, Cut.longest]
  cases htake : cs.takeWhile Text.isWord with
  | nil =>
    rw [Text.bytes_nil, List.length_nil, Nat.add_zero, if_pos rfl]
    rfl
  | cons c w =>
    rw [htake] at hw
    have hpos := List.length_pos_iff.2 (Text.bytes_ne_nil (List.cons_ne_nil c w))
    have hlexeme : At text i ((':' :: c :: w) ++ cs.dropWhile Text.isWord) := by
      rwa [← htake, List.cons_append, List.takeWhile_append_dropWhile]
    rw [if_neg (by omega), add_length_bytes_cons (c := ':') (by decide), hlexeme.slice, ok_bind,
      Text.lowercase_tag hw]
    rfl

theorem numberAt_eq (h : At text i cs) :
    numberAt text i = .ok (placed i (.ok (Cut.found .number [] (Cut.numberEnd cs)))) := by
  have hquantifier : ∀ c, Cut.isQuantifier c = true → c.toNat < 0x80 :=
    fun c hc => Text.isAscii_of_isWord (Cut.isWord_of_isQuantifier hc)
  have hskip := skipWhile_eq (tells_isAscii fun _ => Text.isAscii_of_isDigit) h
  have hdigits := h
  rw [← List.takeWhile_append_dropWhile (p := Char.isDigit) (l := cs)] at hdigits
  have hnext := hdigits.append
  rw [numberAt, hskip, ok_bind, Cut.numberEnd]
  cases hdrop : cs.dropWhile Char.isDigit with
  | nil =>
    rw [hdrop] at hnext
    rw [if_neg (Nat.not_lt_of_le hnext.end_le), hdigits.slice]
    rfl
  | cons q ds =>
    rw [hdrop] at hnext
    obtain ⟨b, hb, hbyte⟩ := hnext.first
    rw [if_pos hnext.lt, hbyte, ok_bind, isAscii_of_head hquantifier hb]
    by_cases hq : Cut.isQuantifier q = true
    · have hlexeme : At text i ((cs.takeWhile Char.isDigit ++ [q]) ++ ds) := by
        rwa [List.append_assoc, List.singleton_append, ← hdrop, List.takeWhile_append_dropWhile]
      have hstop : i + (Text.bytes (cs.takeWhile Char.isDigit)).length + 1 =
          i + (Text.bytes (cs.takeWhile Char.isDigit ++ [q])).length := by
        have hlast := length_bytes_ascii (List.forall_mem_singleton.2 (hquantifier q hq))
        rw [Text.bytes_append, List.length_append, hlast, ← Nat.add_assoc]
        rfl
      simp only [if_pos hq, hstop]
      rw [hlexeme.slice]
      rfl
    · simp only [if_neg hq]
      rw [hdigits.slice]
      rfl

theorem identifierAt_eq (h : At text i (c :: cs)) (hc : Text.isWord c = true) :
    identifierAt text i = .ok (placed i (.ok (Cut.found .identifier [c] (Cut.longest Text.isWord cs)))) := by
  have hskip := skipWhile_eq (tells_isAscii fun _ => Text.isAscii_of_isWord) h
  rw [List.takeWhile_cons_of_pos hc] at hskip
  have hlexeme : At text i ((c :: cs.takeWhile Text.isWord) ++ cs.dropWhile Text.isWord) := by
    rwa [List.cons_append, List.takeWhile_append_dropWhile]
  rw [identifierAt, hskip, ok_bind, hlexeme.slice]
  rfl

theorem strayAt_eq (h : At text i (c :: cs)) : strayAt text i = .ok (placed i (.error (.strayChar c))) := by
  have hall : At text i ((c :: cs) ++ []) := by rwa [List.append_nil]
  rw [strayAt, h.size, hall.slice, ok_bind, String.toList_ofList]
  rfl

theorem opensComment_eq (h : At text i ('/' :: cs)) : opensComment text i = .ok (cs.head? == some '*') := by
  have hnext := h.tail (by decide)
  rw [opensComment]
  cases cs with
  | nil =>
    rw [if_neg (Nat.not_lt_of_le hnext.end_le)]
    rfl
  | cons d cs =>
    obtain ⟨b, hb, hbyte⟩ := hnext.first
    rw [if_pos hnext.lt, hbyte, ok_bind]
    refine congrArg Except.ok (Bool.eq_iff_iff.2 ?_)
    rw [decide_eq_true_iff, head_eq_byte (by decide) hb, List.head?_cons, beq_iff_eq, Option.some.injEq]

theorem slashAt_eq : At text i ('/' :: cs) →
    (do if ← opensComment text i then blockCommentAt text i else strayAt text i) =
      .ok (placed i (match cs with
        | '*' :: ds =>
          match Cut.blockCommentEnd ds with
          | some cut => .ok (Cut.found .blockComment ['/', '*'] cut)
          | none => .error .openBlockComment
        | _ => .error (.strayChar '/'))) := by
  intro h
  rw [opensComment_eq h, ok_bind]
  cases cs with
  | nil => exact strayAt_eq h
  | cons d cs =>
    by_cases hd : d = '*'
    · subst hd
      exact blockCommentAt_eq h
    · have hhead : ¬ ((d :: cs).head? == some '*') = true := by simpa using hd
      rw [if_neg hhead, strayAt_eq h]
      split
      · next heq => exact absurd (List.cons.inj heq).1 hd
      · rfl

/-- Whether a byte is a token by itself. -/
theorem punct_of_head (hb : b ∈ (String.utf8EncodeChar c).head?) :
    Punct.ofChar? (.ofUInt8 b) = Punct.ofChar? c := by
  apply Option.ext
  intro p
  have hascii : ∀ c, decide (Punct.ofChar? c = some p) = true → c.toNat < 0x80 := by
    intro c hc
    rw [decide_eq_true_iff, Punct.ofChar?_eq_some] at hc
    rw [← hc]
    cases p <;> decide
  have hhead := isAscii_of_head hascii hb
  rwa [isAscii, decide_eq_decide] at hhead

/-- What is found at the first byte of a character is what is cut there. -/
theorem tokenAt_eq (h : At text i (c :: cs)) (hb : b ∈ (String.utf8EncodeChar c).head?) :
    tokenAt text i b = .ok (placed i (Cut.split c cs)) := by
  have hbyte : ∀ d : Char, d.toNat < 0x80 → (b = Text.byte d ↔ c = d) := fun d hd => head_eq_byte hd hb
  have hdigit : isAscii Char.isDigit b = c.isDigit := isAscii_of_head (fun _ => Text.isAscii_of_isDigit) hb
  have hword : isAscii (fun c => c.isAlpha || c == '_') b = (c.isAlpha || c == '_') :=
    isAscii_of_head (fun _ hc => Text.isAscii_of_isWord (Text.isLetter_iff.1 hc).1) hb
  have hopens : ((b = Text.byte 't' ∨ b = Text.byte 'T') ∧ opensMultiline text i = true) ↔
      Cut.opensMultiline (c :: cs) = true := by
    rw [opensMultiline_eq h, hbyte 't' (by decide), hbyte 'T' (by decide)]
    exact ⟨fun hand => hand.2, fun hopens => ⟨Cut.head_of_opensMultiline hopens, hopens⟩⟩
  unfold tokenAt Cut.split
  rw [punct_of_head hb, hdigit, hword]
  cases hp : Punct.ofChar? c with
  | some p =>
    have hc := Punct.ofChar?_eq_some.1 hp
    subst hc
    refine congrArg Except.ok (placed_ok rfl ?_)
    cases p <;> rfl
  | none =>
    dsimp only
    by_cases hcomment : c = '#'
    · subst hcomment
      rw [if_pos ((hbyte '#' (by decide)).2 rfl), if_pos rfl]
      exact commentAt_eq h
    rw [if_neg ((hbyte '#' (by decide)).not.2 hcomment), if_neg hcomment]
    by_cases hslash : c = '/'
    · subst hslash
      rw [if_pos ((hbyte '/' (by decide)).2 rfl), if_pos rfl]
      exact slashAt_eq h
    rw [if_neg ((hbyte '/' (by decide)).not.2 hslash), if_neg hslash]
    by_cases hquote : c = '"'
    · subst hquote
      rw [if_pos ((hbyte '"' (by decide)).2 rfl), if_pos rfl]
      exact stringAt_eq h
    rw [if_neg ((hbyte '"' (by decide)).not.2 hquote), if_neg hquote]
    by_cases hmultiline : Cut.opensMultiline (c :: cs) = true
    · rw [if_pos (hopens.2 hmultiline), if_pos hmultiline]
      exact multilineAt_eq h hmultiline
    rw [if_neg (hopens.not.2 hmultiline), if_neg hmultiline]
    by_cases hcolon : c = ':'
    · subst hcolon
      rw [if_pos ((hbyte ':' (by decide)).2 rfl), if_pos rfl]
      exact tagAt_eq h
    rw [if_neg ((hbyte ':' (by decide)).not.2 hcolon), if_neg hcolon]
    split
    · exact numberAt_eq h
    split
    · next halpha => exact identifierAt_eq h (Text.isLetter_iff.1 halpha).1
    · exact strayAt_eq h

/-! ## All tokens -/

theorem isLayout_of_head (hb : b ∈ (String.utf8EncodeChar c).head?) : isAscii Text.isLayout b = Text.isLayout c :=
  isAscii_of_head (fun _ => Text.isAscii_of_isLayout) hb

theorem tokensFrom_eq (h : At text i cs) :
    tokensFrom text i = .ok (tokenizeFrom ((LineStarts.ofText text).position i) cs) := by
  induction hn : cs.length using Nat.strong_induction_on generalizing cs i with
  | h n ih =>
    subst hn
    cases cs with
    | nil => rw [tokensFrom_end h.end_le, tokenizeFrom]
    | cons c cs =>
      obtain ⟨b, hb, hbyte⟩ := h.first
      cases hc : Text.isLayout c with
      | true =>
        have hascii := Text.isAscii_of_isLayout hc
        have hlayout : At text i ([c] ++ cs) := h
        have hposition := hlayout.position
        rw [length_bytes_ascii (List.forall_mem_singleton.2 hascii)] at hposition
        rw [tokensFrom_layout hbyte (by rw [isLayout_of_head hb, hc]), tokenizeFrom_layout hc,
          ih cs.length (Nat.lt_succ_self _) (h.tail hascii) rfl]
        exact congrArg (fun p => Except.ok (tokenizeFrom p cs)) hposition
      | false =>
        have hl : isAscii Text.isLayout b = false := by rw [isLayout_of_head hb, hc]
        have htoken := tokenAt_eq h hb
        cases hcut : Cut.split c cs with
        | error fault =>
          rw [hcut] at htoken
          rw [tokensFrom_fault hbyte hl htoken, tokenizeFrom_fault hc hcut]
        | ok cut =>
          rw [hcut] at htoken
          rw [← Cut.split_append hcut] at h
          rw [tokensFrom_token hbyte hl htoken, ih _ (Cut.split_rest_length hcut) h.append rfl, h.position,
            tokenizeFrom_cut hc hcut]
          rfl

/-- A byte is read only where there is one, and a part is taken only from one place between two
characters to a later one. The lexer by offsets does nothing else: it always comes to an end, with
what `MailSieve.tokenize` gives. -/
theorem tokenize_never_traps (text : String) :
    (∀ i b, byteAt text i = .ok b ↔ i < text.utf8ByteSize ∧ text.toUTF8[i]? = some b) ∧
    (∀ start stop s, slice text start stop = .ok s ↔
      start ≤ stop ∧ stop ≤ text.utf8ByteSize ∧ String.Pos.Raw.IsValid text ⟨start⟩ ∧
        String.Pos.Raw.IsValid text ⟨stop⟩ ∧ s.toUTF8 = text.toUTF8.extract start stop) ∧
    ByteLexer.tokenize text = .ok (MailSieve.tokenize text) := by
  refine ⟨fun _ _ => byteAt_eq_ok, fun _ _ _ => slice_eq_ok, ?_⟩
  have hempty : text.toList = [] ++ text.toList := rfl
  have hstart : (LineStarts.ofText text).position 0 = Position.start := LineStarts.position_ofText hempty
  rw [ByteLexer.tokenize, tokensFrom_eq (.start text), hstart]
  rfl

end

end ByteLexer

end MailSieve
