import Mathlib
import MailSieve.Position
import MailSieve.Text.Ascii

/-!
# Byte offsets

A lexer that moves its position over each character and one that looks the byte offset
up in the line starts place tokens alike: only a line feed has the byte 10 in its UTF-8
form, so both count the same lines, and both count columns in bytes.
-/

namespace MailSieve

/-! ## The bytes of a text -/

namespace Text

def bytes (cs : List Char) : List UInt8 :=
  cs.flatMap String.utf8EncodeChar

@[simp] theorem bytes_nil : bytes [] = [] := rfl

@[simp] theorem bytes_cons (c : Char) (cs : List Char) :
    bytes (c :: cs) = String.utf8EncodeChar c ++ bytes cs := by
  simp [bytes]

@[simp] theorem bytes_append (cs ds : List Char) : bytes (cs ++ ds) = bytes cs ++ bytes ds := by
  simp [bytes]

theorem toUTF8_toList (text : String) : text.toUTF8.data.toList = bytes text.toList := by
  have htext : text.toUTF8 = text.toList.utf8Encode := by
    rw [String.toUTF8_eq_toByteArray, ← String.toByteArray_ofList, String.ofList_toList]
  rw [htext]
  simp [List.utf8Encode, bytes]

theorem utf8EncodeChar_ne_nil (c : Char) : String.utf8EncodeChar c ≠ [] := by
  have hsize : 0 < (String.utf8EncodeChar c).length := by
    rw [String.length_utf8EncodeChar]
    exact c.utf8Size_pos
  exact List.length_pos_iff.1 hsize

theorem bytes_ne_nil {cs : List Char} (h : cs ≠ []) : bytes cs ≠ [] := by
  cases cs with
  | nil => exact absurd rfl h
  | cons c cs =>
    rw [bytes_cons]
    exact List.append_ne_nil_of_left_ne_nil (utf8EncodeChar_ne_nil c) (bytes cs)

theorem utf8EncodeChar_of_ascii {c : Char} (h : c.toNat < 0x80) : String.utf8EncodeChar c = [byte c] := by
  apply String.utf8EncodeChar_eq_singleton
  rw [Char.utf8Size_eq_one_iff, UInt32.le_iff_toNat_le]
  exact Nat.le_of_lt_succ h

/-- The bytes of a character of several bytes are not ASCII. -/
theorem le_of_mem_utf8EncodeChar {c : Char} (h : 0x80 ≤ c.toNat) {b : UInt8}
    (hb : b ∈ String.utf8EncodeChar c) : 0x80 ≤ b.toNat := by
  have hv : 0x80 ≤ c.val.toNat := h
  unfold String.utf8EncodeChar at hb
  dsimp only at hb
  split_ifs at hb
  · omega
  all_goals
    simp only [List.mem_cons, List.not_mem_nil, or_false, ← UInt8.toNat_inj, UInt8.toNat_ofNat'] at hb
    omega

theorem ofUInt8_byte {c : Char} (h : c.toNat < 0x80) : Char.ofUInt8 (byte c) = c := by
  apply Char.ext
  apply UInt32.toNat_inj.1
  have hv : c.val.toNat < 0x80 := h
  show (c.val.toUInt8.toUInt32).toNat = c.val.toNat
  rw [UInt8.toNat_toUInt32, UInt32.toNat_toUInt8]
  exact Nat.mod_eq_of_lt (by omega)

theorem toNat_ofUInt8 (b : UInt8) : (Char.ofUInt8 b).toNat = b.toNat :=
  UInt8.toNat_toUInt32 b

/-- A byte stands for an ASCII character only in the form of that character. -/
theorem byte_mem_utf8EncodeChar {c d : Char} (hd : d.toNat < 0x80) :
    byte d ∈ String.utf8EncodeChar c ↔ c = d := by
  constructor
  · intro h
    rcases Nat.lt_or_ge c.toNat 0x80 with hc | hc
    · rw [utf8EncodeChar_of_ascii hc, List.mem_singleton] at h
      rw [← ofUInt8_byte hc, ← h, ofUInt8_byte hd]
    · have hle := le_of_mem_utf8EncodeChar hc h
      rw [← toNat_ofUInt8, ofUInt8_byte hd] at hle
      omega
  · rintro rfl
    rw [utf8EncodeChar_of_ascii hd]
    exact List.mem_singleton_self _

theorem ne_byte_of_le {b : UInt8} (hb : 0x80 ≤ b.toNat) {d : Char} (hd : d.toNat < 0x80) : b ≠ byte d := by
  rintro rfl
  rw [← toNat_ofUInt8, ofUInt8_byte hd] at hb
  omega

/-- Only the first byte of a character can be ASCII. -/
theorem utf8EncodeChar_cons (c : Char) :
    ∃ b bs, String.utf8EncodeChar c = b :: bs ∧ ∀ b' ∈ bs, 0x80 ≤ b'.toNat := by
  rcases Nat.lt_or_ge c.toNat 0x80 with hc | hc
  · exact ⟨byte c, [], utf8EncodeChar_of_ascii hc, nofun⟩
  · obtain ⟨b, bs, hbytes⟩ := List.exists_cons_of_ne_nil (utf8EncodeChar_ne_nil c)
    refine ⟨b, bs, hbytes, fun b' hb' => le_of_mem_utf8EncodeChar hc ?_⟩
    rw [hbytes]
    exact List.mem_cons_of_mem b hb'

theorem utf8EncodeChar_lineFeed : String.utf8EncodeChar '\n' = [10] :=
  utf8EncodeChar_of_ascii (by decide)

theorem ne_ten_of_mem_utf8EncodeChar {c : Char} (hc : c ≠ '\n') {b : UInt8}
    (hb : b ∈ String.utf8EncodeChar c) : b ≠ 10 := by
  rintro rfl
  exact hc ((byte_mem_utf8EncodeChar (by decide)).1 hb)

end Text

namespace Position

def nextByte (p : Position) (b : UInt8) : Position :=
  if b = 10 then ⟨p.line + 1, 1⟩ else ⟨p.line, p.column + 1⟩

theorem foldl_nextByte_of_ne {bs : List UInt8} (h : ∀ b ∈ bs, b ≠ 10) (p : Position) :
    bs.foldl nextByte p = ⟨p.line, p.column + bs.length⟩ := by
  induction bs generalizing p with
  | nil => rfl
  | cons b bs ih =>
    obtain ⟨hb, hbs⟩ := List.forall_mem_cons.1 h
    rw [List.foldl_cons, ih hbs, nextByte, if_neg hb]
    simp [Nat.add_comm, Nat.add_left_comm]

theorem next_eq_foldl_nextByte (p : Position) (c : Char) :
    p.next c = (String.utf8EncodeChar c).foldl nextByte p := by
  by_cases hc : c = '\n'
  · subst hc
    rw [Text.utf8EncodeChar_lineFeed]
    rfl
  · have hbytes : ∀ b ∈ String.utf8EncodeChar c, b ≠ 10 :=
      fun b hb => Text.ne_ten_of_mem_utf8EncodeChar hc hb
    rw [foldl_nextByte_of_ne hbytes, String.length_utf8EncodeChar, next, if_neg hc]

theorem advance_eq_foldl_nextByte (p : Position) (cs : List Char) :
    p.advance cs = (Text.bytes cs).foldl nextByte p := by
  induction cs generalizing p with
  | nil => rfl
  | cons c cs ih =>
    rw [advance_cons, ih, next_eq_foldl_nextByte, Text.bytes_cons, List.foldl_append]

end Position

/-! ## Searching the line starts -/

namespace LineStarts

theorem startsAfter_append (base : Nat) (bs cs : List UInt8) :
    startsAfter base (bs ++ cs) = startsAfter base bs ++ startsAfter (base + bs.length) cs := by
  induction bs generalizing base with
  | nil => rfl
  | cons b bs ih =>
    have hbase : base + 1 + bs.length = base + (b :: bs).length := by
      rw [List.length_cons]
      omega
    simp only [List.cons_append, startsAfter, ih, hbase]
    split <;> rfl

theorem mem_startsAfter {base s : Nat} {bs : List UInt8} (h : s ∈ startsAfter base bs) :
    base < s ∧ s ≤ base + bs.length := by
  induction bs generalizing base with
  | nil => cases h
  | cons b bs ih =>
    rw [List.length_cons]
    unfold startsAfter at h
    split at h
    · rcases List.mem_cons.1 h with rfl | h
      · omega
      · have := ih h
        omega
    · have := ih h
      omega

theorem startsAfter_ascending (base : Nat) (bs : List UInt8) : (startsAfter base bs).Pairwise (· < ·) := by
  induction bs generalizing base with
  | nil => exact .nil
  | cons b bs ih =>
    unfold startsAfter
    split
    · exact List.pairwise_cons.2 ⟨fun s hs => (mem_startsAfter hs).1, ih (base + 1)⟩
    · exact ih (base + 1)

/-- What a search is to find: the offset, or where it would have to stand. -/
def Rank.Right (offsets : Array Nat) (offset : Nat) : Rank → Prop
  | found i => offsets[i]? = some offset
  | missing next => next ≤ offsets.size ∧
      ∀ i s, offsets[i]? = some s → (i < next → s < offset) ∧ (next ≤ i → offset < s)

section
variable {offsets : Array Nat} {offset : Nat}

theorem lt_of_ascending (h : offsets.toList.Pairwise (· < ·)) {i j a b : Nat} (hij : i < j)
    (ha : offsets[i]? = some a) (hb : offsets[j]? = some b) : a < b := by
  rw [← Array.getElem?_toList] at ha hb
  obtain ⟨hi, rfl⟩ := List.getElem?_eq_some_iff.1 ha
  obtain ⟨hj, rfl⟩ := List.getElem?_eq_some_iff.1 hb
  exact List.pairwise_iff_getElem.1 h i j hi hj hij

theorem search_right (hascending : offsets.toList.Pairwise (· < ·)) {lo hi : Nat} (h : hi ≤ offsets.size)
    (hlo : ∀ i s, offsets[i]? = some s → i < lo → s < offset)
    (hhi : ∀ i s, offsets[i]? = some s → hi ≤ i → offset < s) (hle : lo ≤ hi) :
    (search offsets offset lo hi h).Right offsets offset := by
  fun_induction search offsets offset lo hi h with
  | case1 lo hi h hlt mid hmid heq =>
    show offsets[mid]? = some offset
    rw [Array.getElem?_eq_getElem hmid, heq]
  | case2 lo hi h hlt mid hmid hne hless ih =>
    apply ih _ hhi (by omega)
    intro i s hs himid
    rcases Nat.lt_succ_iff_lt_or_eq.1 himid with hi' | rfl
    · exact Nat.lt_trans (lt_of_ascending hascending hi' hs (Array.getElem?_eq_getElem hmid)) hless
    · rw [Array.getElem?_eq_getElem hmid] at hs
      cases hs
      exact hless
  | case3 lo hi h hlt mid hmid hne hless ih =>
    apply ih hlo _ (by omega)
    intro i s hs hmidi
    have hgreater : offset < offsets[mid] := by omega
    rcases Nat.lt_or_eq_of_le hmidi with hi' | heq
    · exact Nat.lt_trans hgreater (lt_of_ascending hascending hi' (Array.getElem?_eq_getElem hmid) hs)
    · subst heq
      rw [Array.getElem?_eq_getElem hmid] at hs
      cases hs
      exact hgreater
  | case4 lo hi h hlt =>
    exact ⟨by omega, fun i s hs => ⟨hlo i s hs, fun hi' => hhi i s hs (by omega)⟩⟩

theorem rank_right {starts : LineStarts} (h : starts.offsets.toList.Pairwise (· < ·)) :
    (starts.rank offset).Right starts.offsets offset := by
  apply search_right h
  · intro i s _ hi
    exact absurd hi (Nat.not_lt_zero i)
  · intro i s hs hi
    rw [Array.getElem?_eq_none hi] at hs
    cases hs
  · exact Nat.zero_le _

/-- The line of an offset is the last one that begins at most there. -/
theorem line_eq {starts : LineStarts} (h : starts.offsets.toList.Pairwise (· < ·)) {k s : Nat}
    (hstart : starts.offsets[k]? = some s) (hle : s ≤ offset)
    (hnext : ∀ s', starts.offsets[k + 1]? = some s' → offset < s') : starts.line offset = k := by
  have hright : (starts.rank offset).Right starts.offsets offset := rank_right h
  unfold line
  cases hrank : starts.rank offset with
  | found i =>
    rw [hrank] at hright
    have hfound : starts.offsets[i]? = some offset := hright
    obtain ⟨hsize, -⟩ := Array.getElem?_eq_some_iff.1 hfound
    show i = k
    rcases Nat.lt_trichotomy i k with hlt | heq | hgt
    · have := lt_of_ascending h hlt hfound hstart
      omega
    · exact heq
    · -- the next line would begin at most at the offset
      have hsome : starts.offsets[k + 1]? = some starts.offsets[k + 1] := Array.getElem?_eq_getElem (by omega)
      have hafter := hnext _ hsome
      rcases Nat.lt_or_eq_of_le hgt with hlt | rfl
      · have := lt_of_ascending h hlt hsome hfound
        omega
      · have := Option.some.inj (hsome.symm.trans hfound)
        omega
  | missing next =>
    rw [hrank] at hright
    obtain ⟨hsize, hentries⟩ := hright
    have hk : k < next := by
      by_contra hge
      have := (hentries k s hstart).2 (Nat.le_of_not_lt hge)
      omega
    have hk' : ¬ k + 1 < next := by
      intro hlt
      have hsome : starts.offsets[k + 1]? = some starts.offsets[k + 1] := Array.getElem?_eq_getElem _
      have := (hentries _ _ hsome).1 hlt
      have := hnext _ hsome
      omega
    show next - 1 = k
    omega

end

/-- The starts of the lines that begin in a text or at its end. -/
def startsBy (bs : List UInt8) : List Nat :=
  0 :: startsAfter 0 bs

theorem startsBy_snoc (bs : List UInt8) (b : UInt8) :
    startsBy (bs ++ [b]) = startsBy bs ++ if b = 10 then [bs.length + 1] else [] := by
  simp only [startsBy, startsAfter_append, startsAfter, Nat.zero_add, List.cons_append]

theorem startsBy_le {bs : List UInt8} {s : Nat} (h : s ∈ startsBy bs) : s ≤ bs.length := by
  rcases List.mem_cons.1 h with rfl | h
  · exact Nat.zero_le _
  · have := mem_startsAfter h
    omega

theorem foldl_nextByte_start (bs : List UInt8) :
    bs.foldl Position.nextByte .start =
      ⟨(startsBy bs).length, bs.length - (startsBy bs).getLast?.getD 0 + 1⟩ := by
  induction bs using List.reverseRecOn with
  | nil => rfl
  | append_singleton bs b ih =>
    obtain ⟨s, hs⟩ : ∃ s, (startsBy bs).getLast? = some s := by simp [startsBy, List.getLast?_cons]
    have hle := startsBy_le (List.mem_of_getLast? hs)
    rw [List.foldl_append, ih, startsBy_snoc, List.foldl_cons, List.foldl_nil, Position.nextByte]
    split
    · simp
    · simp [hs]
      omega

theorem offsets_ascending (bs : List UInt8) : (ofBytes bs).offsets.toList.Pairwise (· < ·) := by
  refine List.pairwise_cons.2 ⟨?_, startsAfter_ascending 0 bs⟩
  intro s hs
  exact Nat.lt_of_le_of_lt (Nat.zero_le 0) (mem_startsAfter hs).1

/-- An offset is on the last of the lines that begin in the bytes before it or at their end. -/
theorem line_ofBytes (bs : List UInt8) (offset : Nat) :
    (ofBytes bs).line offset + 1 = (startsBy (bs.take offset)).length ∧
      (ofBytes bs).offsets[(ofBytes bs).line offset]? = (startsBy (bs.take offset)).getLast? := by
  have hsplit : (ofBytes bs).offsets.toList =
      startsBy (bs.take offset) ++ startsAfter (bs.take offset).length (bs.drop offset) := by
    have hbytes := startsAfter_append 0 (bs.take offset) (bs.drop offset)
    rw [List.take_append_drop, Nat.zero_add] at hbytes
    simp only [ofBytes, startsBy, hbytes, List.cons_append]
  have hpos : 0 < (startsBy (bs.take offset)).length := Nat.succ_pos _
  obtain ⟨s, hs⟩ : ∃ s, (startsBy (bs.take offset)).getLast? = some s := by simp [startsBy, List.getLast?_cons]
  have hle : s ≤ offset := by
    have := startsBy_le (List.mem_of_getLast? hs)
    rw [List.length_take] at this
    omega
  have hstart : (ofBytes bs).offsets[(startsBy (bs.take offset)).length - 1]? = some s := by
    rw [← Array.getElem?_toList, hsplit, List.getElem?_append_left (by omega), ← hs, List.getLast?_eq_getElem?]
  have hline : (ofBytes bs).line offset = (startsBy (bs.take offset)).length - 1 := by
    apply line_eq (offsets_ascending bs) hstart hle
    intro s' hs'
    rw [← Array.getElem?_toList, hsplit, List.getElem?_append_right (by omega)] at hs'
    have hmem := List.mem_of_getElem? hs'
    have hafter := mem_startsAfter hmem
    have hin : offset < bs.length := by
      by_contra hend
      rw [List.drop_of_length_le (by omega)] at hmem
      cases hmem
    rw [List.length_take] at hafter
    omega
  exact ⟨by omega, by rw [hline, hstart, hs]⟩

theorem position_eq (bs : List UInt8) (offset : Nat) : (ofBytes bs).position offset =
    ⟨(startsBy (bs.take offset)).length, offset - (startsBy (bs.take offset)).getLast?.getD 0 + 1⟩ := by
  obtain ⟨hline, hstart⟩ := line_ofBytes bs offset
  rw [position, Array.getD_eq_getD_getElem?, hstart, hline]

/-- Looking an offset up gives the position after the bytes before it. -/
theorem position_ofBytes (bs cs : List UInt8) :
    (ofBytes (bs ++ cs)).position bs.length = bs.foldl Position.nextByte .start := by
  rw [position_eq, List.take_left, foldl_nextByte_start]

/-- The position of an offset of a text is the one after the characters before it. -/
theorem position_ofText {text : String} {cs ds : List Char} (h : text.toList = cs ++ ds) :
    (ofText text).position (Text.bytes cs).length = Position.start.advance cs := by
  rw [ofText, Text.toUTF8_toList, h, Text.bytes_append, position_ofBytes,
    Position.advance_eq_foldl_nextByte]

end LineStarts

end MailSieve
