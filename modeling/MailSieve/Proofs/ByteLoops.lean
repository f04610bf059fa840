import MailSieve.Proofs.ByteLexer
import MailSieve.Proofs.Segments

/-!
# Loops over bytes end between characters

Whatever ends a loop of the lexer by offsets is an ASCII byte or the end of the text, and the bytes
of a character of several are not ASCII. So a loop that begins between two characters ends between
two, where the cut of the characters ends as well. The loop of a quoted string may leave this path
after a backslash; it comes back to it, as it passes by whatever is left of the character.
-/

namespace MailSieve.ByteLexer

section
variable {text : String} {i j : Nat} {b : UInt8} {bs bs' : List UInt8} {c d : Char} {cs ds : List Char}

/-! ## Places in a text -/

def Ahead (text : String) (i : Nat) (bs : List UInt8) : Prop :=
  ∃ before, Text.bytes text.toList = before ++ bs ∧ before.length = i

/-- The characters from an offset on. No characters are ahead of an offset within one. -/
def At (text : String) (i : Nat) (cs : List Char) : Prop :=
  ∃ before, text.toList = before ++ cs ∧ (Text.bytes before).length = i

theorem Ahead.append (h : Ahead text i (bs ++ bs')) : Ahead text (i + bs.length) bs' := by
  obtain ⟨before, hbytes, rfl⟩ := h
  exact ⟨before ++ bs, by rw [hbytes, List.append_assoc], List.length_append⟩

theorem Ahead.tail (h : Ahead text i (b :: bs)) : Ahead text (i + 1) bs := by
  have happend : Ahead text i ([b] ++ bs) := h
  exact happend.append

theorem Ahead.size (h : Ahead text i bs) : text.utf8ByteSize = i + bs.length := by
  obtain ⟨before, hbytes, rfl⟩ := h
  have hsize : text.utf8ByteSize = (Text.bytes text.toList).length := Text.toUTF8_size text
  rw [hsize, hbytes, List.length_append]

theorem Ahead.lt (h : Ahead text i (b :: bs)) : i < text.utf8ByteSize := by
  rw [h.size, List.length_cons]
  omega

theorem Ahead.byteAt (h : Ahead text i (b :: bs)) : byteAt text i = .ok b := by
  have hlt := h.lt
  obtain ⟨before, hbytes, rfl⟩ := h
  have hget := Text.toUTF8_getElem? text hlt
  rw [hbytes, List.getElem?_append_right (Nat.le_refl _), Nat.sub_self] at hget
  rw [ByteLexer.byteAt, getElem?_pos text.toUTF8 before.length hlt, ← Option.some.inj hget]

/-- What passes by one byte passes by all of them. -/
theorem Ahead.pass {f : Nat → α} {p : UInt8 → Prop}
    (hf : ∀ {i b bs}, Ahead text i (b :: bs) → p b → f i = f (i + 1))
    (h : Ahead text i (bs ++ bs')) (hbs : ∀ b ∈ bs, p b) : f i = f (i + bs.length) := by
  induction bs generalizing i with
  | nil => rfl
  | cons b bs ih =>
    obtain ⟨hb, hbs⟩ := List.forall_mem_cons.1 hbs
    rw [hf h hb, ih h.tail hbs, List.length_cons, Nat.add_assoc, Nat.add_comm 1]

namespace At

theorem start (text : String) : At text 0 text.toList :=
  ⟨[], rfl, rfl⟩

theorem append (h : At text i (cs ++ ds)) : At text (i + (Text.bytes cs).length) ds := by
  obtain ⟨before, htext, rfl⟩ := h
  exact ⟨before ++ cs, by rw [htext, List.append_assoc], by rw [Text.bytes_append, List.length_append]⟩

theorem rest (h : At text i (c :: cs)) : At text (i + (String.utf8EncodeChar c).length) cs := by
  have happend : At text i ([c] ++ cs) := h
  have hrest := happend.append
  rwa [Text.bytes_cons, Text.bytes_nil, List.append_nil] at hrest

theorem tail (h : At text i (c :: cs)) (hc : c.toNat < 0x80) : At text (i + 1) cs := by
  have hrest := h.rest
  rwa [Text.utf8EncodeChar_of_ascii hc] at hrest

theorem ahead (h : At text i cs) : Ahead text i (Text.bytes cs) := by
  obtain ⟨before, htext, hi⟩ := h
  exact ⟨Text.bytes before, by rw [htext, Text.bytes_append], hi⟩

theorem ahead_cons (h : At text i (c :: cs)) : Ahead text i (String.utf8EncodeChar c ++ Text.bytes cs) := by
  rw [← Text.bytes_cons]
  exact h.ahead

theorem ahead_ascii (h : At text i (c :: cs)) (hc : c.toNat < 0x80) :
    Ahead text i (Text.byte c :: Text.bytes cs) := by
  have hahead := h.ahead_cons
  rwa [Text.utf8EncodeChar_of_ascii hc] at hahead

theorem byteAt (h : At text i (c :: cs)) (hc : c.toNat < 0x80) : ByteLexer.byteAt text i = .ok (Text.byte c) :=
  (h.ahead_ascii hc).byteAt

theorem first (h : At text i (c :: cs)) :
    ∃ b ∈ (String.utf8EncodeChar c).head?, ByteLexer.byteAt text i = .ok b := by
  obtain ⟨b, bs, hbytes, -⟩ := Text.utf8EncodeChar_cons c
  have hahead := h.ahead_cons
  rw [hbytes] at hahead
  exact ⟨b, by rw [hbytes]; rfl, hahead.byteAt⟩

theorem lt (h : At text i (c :: cs)) : i < text.utf8ByteSize := by
  obtain ⟨b, -, hb⟩ := h.first
  exact lt_of_byteAt hb

theorem size (h : At text i cs) : text.utf8ByteSize = i + (Text.bytes cs).length :=
  h.ahead.size

theorem end_le (h : At text i []) : text.utf8ByteSize ≤ i := by
  rw [h.size]
  exact Nat.le_refl i

theorem position (h : At text i (cs ++ ds)) :
    (LineStarts.ofText text).position (i + (Text.bytes cs).length) =
      ((LineStarts.ofText text).position i).advance cs := by
  obtain ⟨before, htext, rfl⟩ := h
  have happend : text.toList = (before ++ cs) ++ ds := by rw [htext, List.append_assoc]
  rw [LineStarts.position_ofText htext, ← Position.advance_append, ← LineStarts.position_ofText happend,
    Text.bytes_append, List.length_append]

theorem isValid (h : At text i cs) : String.Pos.Raw.IsValid text ⟨i⟩ := by
  obtain ⟨before, htext, rfl⟩ := h
  rw [String.Pos.Raw.isValid_iff_exists_append]
  refine ⟨String.ofList before, String.ofList cs, ?_, ?_⟩
  · rw [← String.ofList_append, ← htext, String.ofList_toList]
  · have hsize : (String.ofList before).utf8ByteSize = (Text.bytes before).length := by
      have := Text.toUTF8_size (String.ofList before)
      rwa [String.toList_ofList] at this
    rw [String.rawEndPos, hsize]

/-- An offset that is not within a character comes after some characters. -/
theorem of_isValid (h : At text i cs) (hle : i ≤ j) (hvalid : String.Pos.Raw.IsValid text ⟨j⟩) :
    ∃ xs ys, cs = xs ++ ys ∧ j = i + (Text.bytes xs).length := by
  obtain ⟨s₁, s₂, hsplit, hj⟩ := String.Pos.Raw.isValid_iff_exists_append.1 hvalid
  obtain ⟨before, htext, rfl⟩ := h
  have hsize : j = (Text.bytes s₁.toList).length := by
    rw [← Text.toUTF8_size]
    exact congrArg String.Pos.Raw.byteIdx hj
  have happend : s₁.toList ++ s₂.toList = before ++ cs := by rw [← String.toList_append, ← hsplit, htext]
  rcases List.append_eq_append_iff.1 happend with ⟨xs, hbefore, -⟩ | ⟨xs, hfirst, hcs⟩
  · -- no characters come between
    rw [hbefore, Text.bytes_append, List.length_append] at hle ⊢
    exact ⟨[], cs, rfl, by rw [Text.bytes_nil, List.length_nil]; omega⟩
  · rw [hfirst, Text.bytes_append, List.length_append] at hsize
    exact ⟨xs, s₂.toList, hcs, hsize⟩

theorem slice? (h : At text i (cs ++ ds)) :
    slice? text i (i + (Text.bytes cs).length) = some (String.ofList cs) := by
  rw [slice?_eq_some]
  refine ⟨Nat.le_add_right _ _, h.isValid, h.append.isValid, ?_⟩
  obtain ⟨before, htext, rfl⟩ := h
  have hextract := Text.extract_toUTF8 htext
  rw [Text.bytes_append, List.length_append] at hextract
  exact hextract.symm

theorem slice (h : At text i (cs ++ ds)) : slice text i (i + (Text.bytes cs).length) = .ok (String.ofList cs) := by
  rw [ByteLexer.slice, h.slice?]

end At

/-! ## Tests of bytes and of characters -/

theorem ne_byte_of_mem (hd : d.toNat < 0x80) (hne : c ≠ d) : ∀ b ∈ String.utf8EncodeChar c, b ≠ Text.byte d := by
  rintro b hb rfl
  exact hne ((Text.byte_mem_utf8EncodeChar hd).1 hb)

theorem head_eq_byte (hd : d.toNat < 0x80) (hb : b ∈ (String.utf8EncodeChar c).head?) :
    b = Text.byte d ↔ c = d := by
  constructor
  · intro heq
    by_contra hne
    exact ne_byte_of_mem hd hne b (List.mem_of_mem_head? hb) heq
  · rintro rfl
    rw [Text.utf8EncodeChar_of_ascii hd] at hb
    exact (Option.some.inj hb).symm

theorem isAscii_of_head {q : Char → Bool} (hq : ∀ c, q c = true → c.toNat < 0x80)
    (hb : b ∈ (String.utf8EncodeChar c).head?) : isAscii q b = q c := by
  rcases Nat.lt_or_ge c.toNat 0x80 with hc | hc
  · rw [Text.utf8EncodeChar_of_ascii hc] at hb
    cases hb
    rw [isAscii, Text.ofUInt8_byte hc]
  · -- neither the byte nor the character is ASCII
    have hle := Text.le_of_mem_utf8EncodeChar hc (List.mem_of_mem_head? hb)
    rw [← Text.toNat_ofUInt8] at hle
    have hfalse : ∀ c : Char, 0x80 ≤ c.toNat → q c = false := by
      intro c hc
      rw [← Bool.not_eq_true]
      intro h
      exact Nat.not_lt_of_le hc (hq c h)
    rw [isAscii, hfalse _ hle, hfalse _ hc]

/-- A test that all bytes of a character pass if the character has the property, and that else
the first one fails. -/
structure Tells (p : UInt8 → Bool) (q : Char → Bool) : Prop where
  all : ∀ c, q c = true → ∀ b ∈ String.utf8EncodeChar c, p b = true
  first : ∀ c, q c = false → ∀ b ∈ (String.utf8EncodeChar c).head?, p b = false

theorem tells_isAscii {q : Char → Bool} (hq : ∀ c, q c = true → c.toNat < 0x80) : Tells (isAscii q) q where
  all c hc b hb := by
    rw [Text.utf8EncodeChar_of_ascii (hq c hc), List.mem_singleton] at hb
    rw [hb, isAscii, Text.ofUInt8_byte (hq c hc), hc]
  first c hc b hb := by rw [isAscii_of_head hq hb, hc]

theorem tells_ne (hd : d.toNat < 0x80) : Tells (· != Text.byte d) (· != d) where
  all c hc b hb := bne_iff_ne.2 (ne_byte_of_mem hd (bne_iff_ne.1 hc) b hb)
  first c hc b hb := by
    rw [bne_eq_false_iff_eq] at hc ⊢
    exact (head_eq_byte hd hb).2 hc

/-! ## The end of a run -/

theorem skipWhile_step {p : UInt8 → Bool} (h : Ahead text i (b :: bs)) (hb : p b = true) :
    skipWhile p text i = skipWhile p text (i + 1) := by
  rw [skipWhile, if_pos h.lt, h.byteAt, ok_bind, if_pos hb]

theorem skipWhile_eq {p : UInt8 → Bool} {q : Char → Bool} (htells : Tells p q) (h : At text i cs) :
    skipWhile p text i = .ok (i + (Text.bytes (cs.takeWhile q)).length) := by
  induction cs generalizing i with
  | nil =>
    rw [skipWhile, if_neg (Nat.not_lt_of_le h.end_le)]
    rfl
  | cons c cs ih =>
    cases hc : q c with
    | true =>
      rw [h.ahead_cons.pass skipWhile_step (htells.all c hc), ih h.rest, List.takeWhile_cons_of_pos hc,
        Text.bytes_cons, List.length_append, Nat.add_assoc]
    | false =>
      obtain ⟨b, hb, hbyte⟩ := h.first
      rw [skipWhile, if_pos h.lt, hbyte, ok_bind, if_neg (by simp [htells.first c hc b hb]),
        List.takeWhile_cons_of_neg (by simp [hc])]
      rfl

/-! ## The end of a string and of a comment -/

def endOf (i : Nat) (cut : Option (List Char × List Char)) : Option Nat :=
  cut.map fun cut => i + (Text.bytes cut.1).length

theorem endOf_cons (i : Nat) (c : Char) (cut : Option (List Char × List Char)) :
    endOf i (cut.map (Cut.cons c)) = endOf (i + (String.utf8EncodeChar c).length) cut := by
  cases cut with
  | none => rfl
  | some cut => simp [endOf, Cut.cons, Nat.add_assoc]

theorem stringEnd_step (h : Ahead text i (b :: bs)) (hb : b ≠ Text.byte '"' ∧ b ≠ Text.byte '\\') :
    stringEnd text i = stringEnd text (i + 1) := by
  rw [stringEnd, if_pos h.lt, h.byteAt, ok_bind, if_neg fun hescape => hb.2 hescape.1, if_neg hb.1]

/-- An escape takes along a whole character: what it leaves of one is passed by. -/
theorem stringEnd_escape (h : At text i ('\\' :: c :: cs)) :
    stringEnd text i = stringEnd text (i + 1 + (String.utf8EncodeChar c).length) := by
  obtain ⟨b, bs, hbytes, hbs⟩ := Text.utf8EncodeChar_cons c
  have hinside := (h.tail (by decide)).ahead_cons
  rw [hbytes] at hinside
  have hpass := hinside.tail.pass stringEnd_step
    fun b hb => ⟨Text.ne_byte_of_le (hbs b hb) (by decide), Text.ne_byte_of_le (hbs b hb) (by decide)⟩
  rw [stringEnd, if_pos h.lt, h.byteAt (by decide), ok_bind, if_pos ⟨rfl, hinside.lt⟩]
  rw [hpass, hbytes, List.length_cons, Nat.add_comm bs.length, ← Nat.add_assoc]

theorem stringEnd_eq (h : At text i cs) : stringEnd text i = .ok (endOf i (Cut.quotedEnd cs)) := by
  fun_induction Cut.quotedEnd cs generalizing i with
  | case1 =>
    rw [stringEnd, if_neg (Nat.not_lt_of_le h.end_le)]
    rfl
  | case2 cs =>
    have hne : Text.byte '"' ≠ Text.byte '\\' := by decide
    rw [stringEnd, if_pos h.lt, h.byteAt (by decide), ok_bind, if_neg fun hescape => hne hescape.1, if_pos rfl]
    rfl
  | case3 c cs ih =>
    have hcut : (Cut.quotedEnd cs).map (fun cut => Cut.cons '\\' (Cut.cons c cut)) =
        ((Cut.quotedEnd cs).map (Cut.cons c)).map (Cut.cons '\\') := by
      rw [Option.map_map]
      rfl
    have hbackslash : (String.utf8EncodeChar '\\').length = 1 := rfl
    rw [stringEnd_escape h, ih (h.tail (by decide)).rest, hcut, endOf_cons, endOf_cons, hbackslash]
  | case4 c cs hquote hbackslash ih =>
    rw [endOf_cons, ← ih h.rest]
    by_cases hc : c = '\\'
    · -- the last character of the text
      subst hc
      cases cs with
      | cons d cs => exact absurd rfl (hbackslash d cs rfl)
      | nil =>
        have hend := (h.tail (by decide)).end_le
        have hne : Text.byte '\\' ≠ Text.byte '"' := by decide
        rw [stringEnd, if_pos h.lt, h.byteAt (by decide), ok_bind,
          if_neg fun hescape => Nat.not_lt_of_le hend hescape.2, if_neg hne,
          Text.utf8EncodeChar_of_ascii (by decide)]
        rfl
    · exact h.ahead_cons.pass stringEnd_step fun b hb =>
        ⟨ne_byte_of_mem (by decide) hquote b hb, ne_byte_of_mem (by decide) hc b hb⟩

theorem commentEnd_step (h : Ahead text i (b :: bs))
    (hb : b = Text.byte '*' → Text.byte '/' ∉ bs.head?) : commentEnd text i = commentEnd text (i + 1) := by
  have hsize := h.size
  rw [commentEnd]
  split
  · rw [commentEnd, if_pos (by omega)]
  · rw [h.byteAt, ok_bind]
    split
    · next hstar =>
      cases bs with
      | nil => exact absurd (Nat.le_of_eq hsize) (by assumption)
      | cons b' bs => rw [h.tail.byteAt, ok_bind, if_neg fun hslash => hb hstar (by rw [hslash]; rfl)]
    · rfl

theorem commentEnd_eq (h : At text i cs) :
    commentEnd text i = .ok ((endOf i (Cut.blockCommentEnd cs)).map (· - 2)) := by
  fun_induction Cut.blockCommentEnd cs generalizing i with
  | case1 =>
    rw [commentEnd, if_pos (Nat.le_succ_of_le h.end_le)]
    rfl
  | case2 cs =>
    have hslash := h.tail (by decide)
    rw [commentEnd, if_neg (Nat.not_le_of_lt hslash.lt), h.byteAt (by decide), ok_bind, if_pos rfl,
      hslash.byteAt (by decide), ok_bind, if_pos rfl]
    rfl
  | case3 c cs hne ih =>
    rw [endOf_cons, ← ih h.rest]
    by_cases hc : c = '*'
    · subst hc
      have hslash : Text.byte '/' ∉ (Text.bytes cs).head? := by
        intro hhead
        cases cs with
        | nil => cases hhead
        | cons d cs =>
          obtain ⟨b, bs, hbytes, -⟩ := Text.utf8EncodeChar_cons d
          rw [Text.bytes_cons, hbytes] at hhead
          have hb : b ∈ (String.utf8EncodeChar d).head? := by rw [hbytes]; rfl
          have hd : d = '/' := (head_eq_byte (by decide) hb).1 (Option.some.inj hhead)
          exact hne cs rfl (by rw [hd])
      rw [commentEnd_step (h.ahead_ascii (by decide)) fun _ => hslash, Text.utf8EncodeChar_of_ascii (by decide)]
      rfl
    · refine h.ahead_cons.pass (p := (· ≠ Text.byte '*')) ?_ (ne_byte_of_mem (by decide) hc)
      intro i b bs hahead hb
      exact commentEnd_step hahead fun hstar => absurd hstar hb

/-! ## The end of a multi-line string -/

theorem nextLine_line {l : List Char} (hl : '\n' ∉ l) (h : At text i (l ++ '\n' :: cs)) :
    nextLine text i = .ok (i + (Text.bytes l).length + 1) := by
  have hall : ∀ c ∈ l, (c != '\n') = true := fun c hc => bne_iff_ne.2 (ne_of_mem_of_not_mem hc hl)
  have hskip := skipWhile_eq (tells_ne (d := '\n') (by decide)) h
  rw [List.takeWhile_append_of_pos hall, List.takeWhile_cons_of_neg (by simp), List.append_nil] at hskip
  rw [nextLine, hskip, ok_bind, if_pos h.append.lt]
  rfl

theorem nextLine_last (hcs : '\n' ∉ cs) (h : At text i cs) : nextLine text i = .ok text.utf8ByteSize := by
  have hall : ∀ c ∈ cs, (c != '\n') = true := fun c hc => bne_iff_ne.2 (ne_of_mem_of_not_mem hc hcs)
  have hskip := skipWhile_eq (tells_ne (d := '\n') (by decide)) h
  have htake : cs.takeWhile (· != '\n') = cs := List.takeWhile_eq_self_iff.2 hall
  rw [htake, ← h.size] at hskip
  rw [nextLine, hskip, ok_bind, if_neg (Nat.lt_irrefl _)]
  rfl

theorem skipByte_self (hc : c.toNat < 0x80) (h : At text i (c :: cs)) :
    skipByte (Text.byte c) text i = .ok (i + 1) := by
  rw [skipByte, if_pos h.lt, h.byteAt hc, ok_bind, if_pos rfl]
  rfl

theorem skipByte_ne (hd : d.toNat < 0x80) (hne : c ≠ d) (h : At text i (c :: cs)) :
    skipByte (Text.byte d) text i = .ok i := by
  obtain ⟨b, hb, hbyte⟩ := h.first
  rw [skipByte, if_pos h.lt, hbyte, ok_bind, if_neg ((head_eq_byte hd hb).not.2 hne)]
  rfl

theorem skipByte_end (h : At text i []) : skipByte b text i = .ok i := by
  rw [skipByte, if_neg (Nat.not_lt_of_le h.end_le)]
  rfl

theorem isDotLine_eq_true (h : At text i cs) (hdot : Text.DotLine cs) : isDotLine text i = .ok true := by
  cases hdot with
  | final =>
    rw [isDotLine, h.byteAt (by decide), ok_bind, if_pos rfl, isLineEnd, if_pos (h.tail (by decide)).end_le]
    rfl
  | lineFeed =>
    have hfeed := h.tail (by decide)
    rw [isDotLine, h.byteAt (by decide), ok_bind, if_pos rfl, isLineEnd, if_neg (Nat.not_le_of_lt hfeed.lt),
      hfeed.byteAt (by decide), ok_bind, if_pos rfl]
    rfl
  | crlf =>
    have hreturn := h.tail (by decide)
    have hfeed := hreturn.tail (by decide)
    have hne : Text.byte '\r' ≠ Text.byte '\n' := by decide
    rw [isDotLine, h.byteAt (by decide), ok_bind, if_pos rfl, isLineEnd, if_neg (Nat.not_le_of_lt hreturn.lt),
      hreturn.byteAt (by decide), ok_bind, if_neg hne, if_pos ⟨rfl, hfeed.lt⟩, hfeed.byteAt (by decide), ok_bind]
    rfl

theorem isDotLine_eq_false (h : At text i (c :: cs)) (hdot : ¬ Text.DotLine (c :: cs)) :
    isDotLine text i = .ok false := by
  obtain ⟨b, hb, hbyte⟩ := h.first
  rw [isDotLine, hbyte, ok_bind]
  by_cases hc : c = '.'
  case neg =>
    rw [if_neg ((head_eq_byte (by decide) hb).not.2 hc)]
    rfl
  rw [if_pos ((head_eq_byte (by decide) hb).2 hc), isLineEnd]
  subst hc
  cases cs with
  | nil => exact absurd .final hdot
  | cons d cs =>
    have hnext := h.tail (by decide)
    obtain ⟨b', hb', hbyte'⟩ := hnext.first
    have hd : d ≠ '\n' := by
      rintro rfl
      exact hdot .lineFeed
    rw [if_neg (Nat.not_le_of_lt hnext.lt), hbyte', ok_bind, if_neg ((head_eq_byte (by decide) hb').not.2 hd)]
    by_cases hd' : d = '\r'
    case neg =>
      rw [if_neg fun hand => hd' ((head_eq_byte (by decide) hb').1 hand.1)]
      rfl
    subst hd'
    have hlast := hnext.tail (by decide)
    cases cs with
    | nil =>
      rw [if_neg fun hand => Nat.not_lt_of_le hlast.end_le hand.2]
      rfl
    | cons e cs =>
      obtain ⟨b'', hb'', hbyte''⟩ := hlast.first
      have he : e ≠ '\n' := by
        rintro rfl
        exact hdot .crlf
      rw [if_pos ⟨(head_eq_byte (by decide) hb').2 rfl, hlast.lt⟩, hbyte'', ok_bind,
        decide_eq_false ((head_eq_byte (by decide) hb'').not.2 he)]
      rfl

theorem multilineEnd_dot (h : At text i cs) (hdot : Text.DotLine cs) :
    multilineEnd text i = .ok (endOf i (Cut.multilineEnd true cs)) := by
  have hi : i < text.utf8ByteSize := by cases hdot <;> exact h.lt
  rw [multilineEnd, dif_pos hi, isDotLine_eq_true h hdot, ok_bind, if_pos rfl]
  cases hdot with
  | final =>
    have hend := h.tail (by decide)
    rw [skipByte_end hend, ok_bind, skipByte_end hend]
    rfl
  | lineFeed =>
    have hfeed := h.tail (by decide)
    rw [skipByte_ne (by decide) (by decide) hfeed, ok_bind, skipByte_self (by decide) hfeed]
    rfl
  | crlf =>
    have hreturn := h.tail (by decide)
    rw [skipByte_self (by decide) hreturn, ok_bind, skipByte_self (by decide) (hreturn.tail (by decide))]
    rfl

theorem multilineEnd_line (h : At text i (c :: cs)) (hdot : ¬ Text.DotLine (c :: cs)) :
    multilineEnd text i = nextLine text i >>= multilineEnd text := by
  rw [multilineEnd, dif_pos h.lt, isDotLine_eq_false h hdot, ok_bind, if_neg Bool.false_ne_true]
  cases nextLine text i <;> rfl

theorem nextLine_multilineEnd (h : At text i cs)
    (hlines : ∀ {ds j}, ds.length < cs.length → At text j ds →
      multilineEnd text j = .ok (endOf j (Cut.multilineEnd true ds))) :
    nextLine text i >>= multilineEnd text = .ok (endOf i (Cut.multilineEnd false cs)) := by
  by_cases hcs : '\n' ∈ cs
  · obtain ⟨l, ds, rfl, hl⟩ := List.eq_append_cons_of_mem hcs
    have hnext : At text (i + (Text.bytes l).length + 1) ds := h.append.tail (by decide)
    rw [nextLine_line hl h, ok_bind, hlines (by simp; omega) hnext, Cut.multilineEnd_line hl]
    cases Cut.multilineEnd true ds with
    | none => rfl
    | some cut => simp [endOf, Text.utf8EncodeChar_lineFeed]; omega
  · rw [nextLine_last hcs h, ok_bind, multilineEnd, dif_neg (Nat.lt_irrefl _), Cut.multilineEnd_of_not_mem hcs]
    rfl

theorem multilineEnd_eq (h : At text i cs) :
    multilineEnd text i = .ok (endOf i (Cut.multilineEnd true cs)) := by
  induction hn : cs.length using Nat.strong_induction_on generalizing cs i with
  | h n ih =>
    subst hn
    by_cases hdot : Text.DotLine cs
    · exact multilineEnd_dot h hdot
    · cases cs with
      | nil =>
        rw [multilineEnd, dif_neg (Nat.not_lt_of_le h.end_le)]
        rfl
      | cons c cs =>
        rw [multilineEnd_line h hdot, Cut.multilineEnd_of_not_dotLine hdot]
        exact nextLine_multilineEnd h fun hlt hds => ih _ hlt hds rfl

end

end MailSieve.ByteLexer
