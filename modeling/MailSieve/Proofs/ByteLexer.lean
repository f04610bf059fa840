import MailSieve.Proofs.Computation
import MailSieve.Text.Lowercase

/-!
# Tokens by byte offsets

This lexer walks over the UTF-8 form of a text by offsets. A byte it reads has to be there, and
what it takes out of the text has to begin and end between two characters; an offset that is not
as it has to be ends the walk as a `Trap`. The loops look at single bytes, so an offset may come
to stand within a character on the way.
-/

namespace MailSieve.ByteLexer

inductive Trap
  | noByte (offset : Nat)
  | noText (start stop : Nat)
deriving DecidableEq

abbrev Scan := Except Trap

def byteAt (text : String) (i : Nat) : Scan UInt8 :=
  match text.toUTF8[i]? with
  | some b => .ok b
  | none => .error (.noByte i)

theorem byteAt_eq_ok {text : String} {i : Nat} {b : UInt8} :
    byteAt text i = .ok b ↔ i < text.utf8ByteSize ∧ text.toUTF8[i]? = some b := by
  unfold byteAt
  cases hb : text.toUTF8[i]? with
  | none => exact ⟨nofun, fun h => nomatch h.2⟩
  | some b' =>
    obtain ⟨hi, -⟩ := getElem?_eq_some_iff.1 hb
    rw [Except.ok.injEq, Option.some.injEq]
    exact ⟨fun heq => ⟨hi, heq⟩, fun h => h.2⟩

/-- The text between two offsets, if neither is within a character or past the end. -/
def slice? (text : String) (start stop : Nat) : Option String :=
  if h : start ≤ stop ∧ String.Pos.Raw.IsValid text ⟨start⟩ ∧ String.Pos.Raw.IsValid text ⟨stop⟩ then
    some (.fromUTF8 (text.toUTF8.extract start stop)
      ((String.Pos.Raw.isValidUTF8_extract_iff ⟨start⟩ ⟨stop⟩ h.1 h.2.2.le_rawEndPos).2 (.inr h.2)))
  else none

theorem slice?_eq_some {text : String} {start stop : Nat} {s : String} : slice? text start stop = some s ↔
    start ≤ stop ∧ String.Pos.Raw.IsValid text ⟨start⟩ ∧ String.Pos.Raw.IsValid text ⟨stop⟩ ∧
      s.toUTF8 = text.toUTF8.extract start stop := by
  unfold slice?
  split
  · next h =>
    rw [Option.some.injEq, ← String.toByteArray_inj]
    exact ⟨fun heq => ⟨h.1, h.2.1, h.2.2, heq.symm⟩, fun hall => hall.2.2.2.symm⟩
  · next h => exact ⟨nofun, fun hall => absurd ⟨hall.1, hall.2.1, hall.2.2.1⟩ h⟩

def slice (text : String) (start stop : Nat) : Scan String :=
  match slice? text start stop with
  | some s => .ok s
  | none => .error (.noText start stop)

theorem slice_eq_ok {text : String} {start stop : Nat} {s : String} : slice text start stop = .ok s ↔
    start ≤ stop ∧ stop ≤ text.utf8ByteSize ∧ String.Pos.Raw.IsValid text ⟨start⟩ ∧
      String.Pos.Raw.IsValid text ⟨stop⟩ ∧ s.toUTF8 = text.toUTF8.extract start stop := by
  have hsome : slice text start stop = .ok s ↔ slice? text start stop = some s := by
    unfold slice
    cases slice? text start stop <;> simp
  rw [hsome, slice?_eq_some]
  refine and_congr_right fun _ => ⟨fun h => ⟨h.2.1.le_rawEndPos, h⟩, fun h => h.2⟩

def isAscii (p : Char → Bool) (b : UInt8) : Bool :=
  p (.ofUInt8 b)

/-! ## Loops -/

def skipWhile (p : UInt8 → Bool) (text : String) (i : Nat) : Scan Nat :=
  if i < text.utf8ByteSize then do
    let b ← byteAt text i
    if p b then skipWhile p text (i + 1) else return i
  else return i
termination_by text.utf8ByteSize - i

def skipByte (b : UInt8) (text : String) (i : Nat) : Scan Nat := do
  if i < text.utf8ByteSize then
    let b' ← byteAt text i
    return if b' = b then i + 1 else i
  else return i

def commentEnd (text : String) (i : Nat) : Scan (Option Nat) :=
  if text.utf8ByteSize ≤ i + 1 then return none
  else do
    let b ← byteAt text i
    if b = Text.byte '*' then
      let b' ← byteAt text (i + 1)
      if b' = Text.byte '/' then return some i else commentEnd text (i + 1)
    else commentEnd text (i + 1)
termination_by text.utf8ByteSize - i

/-- Where a quoted string ends. A backslash takes along the byte after it, which may be the first
of several of one character. -/
def stringEnd (text : String) (i : Nat) : Scan (Option Nat) :=
  if i < text.utf8ByteSize then do
    let b ← byteAt text i
    if b = Text.byte '\\' ∧ i + 1 < text.utf8ByteSize then stringEnd text (i + 2)
    else if b = Text.byte '"' then return some (i + 1)
    else stringEnd text (i + 1)
  else return none
termination_by text.utf8ByteSize - i

def nextLine (text : String) (i : Nat) : Scan Nat := do
  let j ← skipWhile (· != Text.byte '\n') text i
  return if j < text.utf8ByteSize then j + 1 else j

def isLineEnd (text : String) (i : Nat) : Scan Bool := do
  if text.utf8ByteSize ≤ i then return true
  else
    let b ← byteAt text i
    if b = Text.byte '\n' then return true
    else if b = Text.byte '\r' ∧ i + 1 < text.utf8ByteSize then
      let b' ← byteAt text (i + 1)
      return b' = Text.byte '\n'
    else return false

def isDotLine (text : String) (i : Nat) : Scan Bool := do
  let b ← byteAt text i
  if b = Text.byte '.' then isLineEnd text (i + 1) else return false

/-! ### The loops go forward -/

section
variable {text : String} {i j : Nat}

theorem le_of_skipWhile {p : UInt8 → Bool} (h : skipWhile p text i = .ok j) : i ≤ j := by
  fun_induction skipWhile p text i with
  | case1 i hi ih =>
    obtain ⟨b, -, h⟩ := bind_eq_ok.1 h
    split at h
    · exact Nat.le_of_succ_le (ih h)
    · exact Nat.le_of_eq (pure_eq_ok.1 h)
  | case2 => exact Nat.le_of_eq (pure_eq_ok.1 h)

theorem lt_of_byteAt {b : UInt8} (h : byteAt text i = .ok b) : i < text.utf8ByteSize :=
  (byteAt_eq_ok.1 h).1

theorem lt_of_skipWhile {p : UInt8 → Bool} {b : UInt8} (hb : byteAt text i = .ok b) (hp : p b = true)
    (h : skipWhile p text i = .ok j) : i < j := by
  rw [skipWhile, if_pos (lt_of_byteAt hb), hb, ok_bind, if_pos hp] at h
  exact le_of_skipWhile h

theorem le_of_skipByte {b : UInt8} (h : skipByte b text i = .ok j) : i ≤ j := by
  unfold skipByte at h
  split at h
  · obtain ⟨b', -, h⟩ := bind_eq_ok.1 h
    have := pure_eq_ok.1 h
    split at this <;> omega
  · exact Nat.le_of_eq (pure_eq_ok.1 h)

theorem le_of_commentEnd (h : commentEnd text i = .ok (some j)) : i ≤ j := by
  fun_induction commentEnd text i with
  | case1 => cases pure_eq_ok.1 h
  | case2 i hi ih =>
    obtain ⟨b, -, h⟩ := bind_eq_ok.1 h
    split at h
    · obtain ⟨b', -, h⟩ := bind_eq_ok.1 h
      split at h
      · exact Nat.le_of_eq (Option.some.inj (pure_eq_ok.1 h))
      · exact Nat.le_of_succ_le (ih h)
    · exact Nat.le_of_succ_le (ih h)

theorem lt_of_stringEnd (h : stringEnd text i = .ok (some j)) : i < j := by
  fun_induction stringEnd text i with
  | case1 i hi ih₂ ih₁ =>
    obtain ⟨b, -, h⟩ := bind_eq_ok.1 h
    split at h
    · next hescape => exact Nat.lt_of_succ_lt (Nat.lt_of_succ_lt (ih₂ b hescape h))
    · split at h
      · exact Nat.le_of_eq (Option.some.inj (pure_eq_ok.1 h))
      · exact Nat.lt_of_succ_lt (ih₁ h)
  | case2 => cases pure_eq_ok.1 h

theorem le_of_nextLine (h : nextLine text i = .ok j) : i ≤ j := by
  obtain ⟨k, hk, h⟩ := bind_eq_ok.1 h
  have hle := le_of_skipWhile hk
  have := pure_eq_ok.1 h
  split at this <;> omega

theorem lt_of_nextLine (hi : i < text.utf8ByteSize) (h : nextLine text i = .ok j) : i < j := by
  obtain ⟨k, hk, h⟩ := bind_eq_ok.1 h
  have hle := le_of_skipWhile hk
  have := pure_eq_ok.1 h
  split at this <;> omega

end

def multilineEnd (text : String) (i : Nat) : Scan (Option Nat) :=
  if _hi : i < text.utf8ByteSize then do
    if ← isDotLine text i then
      let j ← skipByte (Text.byte '\r') text (i + 1)
      return some (← skipByte (Text.byte '\n') text j)
    else
      match _h : nextLine text i with
      | .error trap => .error trap
      | .ok j => multilineEnd text j
  else return none
termination_by text.utf8ByteSize - i
decreasing_by
  have := lt_of_nextLine (by assumption) (by assumption)
  omega

theorem le_of_multilineEnd {text : String} {i j : Nat} (h : multilineEnd text i = .ok (some j)) : i ≤ j := by
  fun_induction multilineEnd text i with
  | case1 i hi ih =>
    obtain ⟨final, -, h⟩ := bind_eq_ok.1 h
    split at h
    · obtain ⟨k, hk, h⟩ := bind_eq_ok.1 h
      obtain ⟨l, hl, h⟩ := bind_eq_ok.1 h
      have := le_of_skipByte hk
      have := le_of_skipByte hl
      have := Option.some.inj (pure_eq_ok.1 h)
      omega
    · split at h
      · cases h
      · next k hk =>
        exact Nat.le_trans (le_of_nextLine hk) (ih _ hk h)
  | case2 => cases pure_eq_ok.1 h

/-! ## One token -/

abbrev Found := Except LexFault (Token × Nat)

def commentAt (text : String) (start : Nat) : Scan Found := do
  let i ← skipWhile (· != Text.byte '\n') text (start + 1)
  let body ← slice text (start + 1) i
  return .ok (.comment (.ofList (Text.trim body.toList)), i)

def blockCommentAt (text : String) (start : Nat) : Scan Found := do
  match ← commentEnd text (start + 2) with
  | none => return .error .openBlockComment
  | some i =>
    let body ← slice text (start + 2) i
    return .ok (.blockComment (.ofList (Text.trim body.toList)), i + 2)

def stringAt (text : String) (start : Nat) : Scan Found := do
  match ← stringEnd text (start + 1) with
  | none => return .error .openString
  | some i => return .ok (.quoted (← slice text start i), i)

def multilineAt (text : String) (start : Nat) : Scan Found := do
  let line ← nextLine text (start + 5)
  match ← multilineEnd text line with
  | none => return .error .openMultiline
  | some i => return .ok (.multiline (← slice text start i), i)

def tagAt (text : String) (start : Nat) : Scan Found := do
  let i ← skipWhile (isAscii Text.isWord) text (start + 1)
  if i = start + 1 then return .error .bareColon
  else return .ok (.tag (Text.lowercase (← slice text start i)), i)

def numberAt (text : String) (start : Nat) : Scan Found := do
  let i ← skipWhile (isAscii Char.isDigit) text start
  if i < text.utf8ByteSize then
    let b ← byteAt text i
    let i := if isAscii Cut.isQuantifier b then i + 1 else i
    return .ok (.number (← slice text start i), i)
  else return .ok (.number (← slice text start i), i)

def identifierAt (text : String) (start : Nat) : Scan Found := do
  let i ← skipWhile (isAscii Text.isWord) text start
  return .ok (.identifier (← slice text start i), i)

def strayAt (text : String) (start : Nat) : Scan Found := do
  let rest ← slice text start text.utf8ByteSize
  return .error (.strayChar (rest.toList.headD '?'))

def opensComment (text : String) (start : Nat) : Scan Bool := do
  if start + 1 < text.utf8ByteSize then return (← byteAt text (start + 1)) = Text.byte '*'
  else return false

def opensMultiline (text : String) (start : Nat) : Bool :=
  (slice? text start (start + 5)).any (Text.sameFolded · "text:")

def tokenAt (text : String) (start : Nat) (b : UInt8) : Scan Found := do
  match Punct.ofChar? (.ofUInt8 b) with
  | some p => return .ok (.punct p, start + 1)
  | none =>
    if b = Text.byte '#' then commentAt text start
    else if b = Text.byte '/' then
      if ← opensComment text start then blockCommentAt text start else strayAt text start
    else if b = Text.byte '"' then stringAt text start
    else if (b = Text.byte 't' ∨ b = Text.byte 'T') ∧ opensMultiline text start = true then
      multilineAt text start
    else if b = Text.byte ':' then tagAt text start
    else if isAscii Char.isDigit b then numberAt text start
    else if isAscii (fun c => c.isAlpha || c == '_') b then identifierAt text start
    else strayAt text start

/-! ### Every token takes up some bytes -/

section
variable {text : String} {start next : Nat} {token : Token}

theorem lt_of_commentAt (h : commentAt text start = .ok (.ok (token, next))) : start < next := by
  obtain ⟨i, hi, h⟩ := bind_eq_ok.1 h
  obtain ⟨body, -, h⟩ := bind_eq_ok.1 h
  cases pure_eq_ok.1 h
  exact le_of_skipWhile hi

theorem lt_of_blockCommentAt (h : blockCommentAt text start = .ok (.ok (token, next))) : start < next := by
  obtain ⟨_ | i, hi, h⟩ := bind_eq_ok.1 h
  · cases pure_eq_ok.1 h
  · obtain ⟨body, -, h⟩ := bind_eq_ok.1 h
    cases pure_eq_ok.1 h
    have := le_of_commentEnd hi
    omega

theorem lt_of_stringAt (h : stringAt text start = .ok (.ok (token, next))) : start < next := by
  obtain ⟨_ | i, hi, h⟩ := bind_eq_ok.1 h
  · cases pure_eq_ok.1 h
  · obtain ⟨literal, -, h⟩ := bind_eq_ok.1 h
    cases pure_eq_ok.1 h
    exact Nat.lt_of_succ_lt (lt_of_stringEnd hi)

theorem lt_of_multilineAt (h : multilineAt text start = .ok (.ok (token, next))) : start < next := by
  obtain ⟨line, hline, h⟩ := bind_eq_ok.1 h
  obtain ⟨_ | i, hi, h⟩ := bind_eq_ok.1 h
  · cases pure_eq_ok.1 h
  · obtain ⟨literal, -, h⟩ := bind_eq_ok.1 h
    cases pure_eq_ok.1 h
    have := le_of_nextLine hline
    have := le_of_multilineEnd hi
    omega

theorem lt_of_tagAt (h : tagAt text start = .ok (.ok (token, next))) : start < next := by
  obtain ⟨i, hi, h⟩ := bind_eq_ok.1 h
  split at h
  · cases pure_eq_ok.1 h
  · obtain ⟨name, -, h⟩ := bind_eq_ok.1 h
    cases pure_eq_ok.1 h
    exact le_of_skipWhile hi

theorem lt_of_numberAt {b : UInt8} (hb : byteAt text start = .ok b) (hdigit : isAscii Char.isDigit b = true)
    (h : numberAt text start = .ok (.ok (token, next))) : start < next := by
  obtain ⟨i, hi, h⟩ := bind_eq_ok.1 h
  have hlt := lt_of_skipWhile hb hdigit hi
  split at h
  · obtain ⟨q, -, h⟩ := bind_eq_ok.1 h
    obtain ⟨literal, -, h⟩ := bind_eq_ok.1 h
    cases pure_eq_ok.1 h
    split <;> omega
  · obtain ⟨literal, -, h⟩ := bind_eq_ok.1 h
    cases pure_eq_ok.1 h
    exact hlt

theorem lt_of_identifierAt {b : UInt8} (hb : byteAt text start = .ok b) (hword : isAscii Text.isWord b = true)
    (h : identifierAt text start = .ok (.ok (token, next))) : start < next := by
  obtain ⟨i, hi, h⟩ := bind_eq_ok.1 h
  obtain ⟨name, -, h⟩ := bind_eq_ok.1 h
  cases pure_eq_ok.1 h
  exact lt_of_skipWhile hb hword hi

theorem strayAt_ne_ok : strayAt text start ≠ .ok (.ok (token, next)) := by
  intro h
  obtain ⟨rest, -, h⟩ := bind_eq_ok.1 h
  cases pure_eq_ok.1 h

theorem lt_of_tokenAt {b : UInt8} (hb : byteAt text start = .ok b)
    (h : tokenAt text start b = .ok (.ok (token, next))) : start < next := by
  unfold tokenAt at h
  split at h
  · cases pure_eq_ok.1 h
    exact Nat.lt_succ_self start
  split at h
  · exact lt_of_commentAt h
  split at h
  · obtain ⟨opens, -, h⟩ := bind_eq_ok.1 h
    split at h
    · exact lt_of_blockCommentAt h
    · exact absurd h strayAt_ne_ok
  split at h
  · exact lt_of_stringAt h
  split at h
  · exact lt_of_multilineAt h
  split at h
  · exact lt_of_tagAt h
  split at h
  · next hdigit => exact lt_of_numberAt hb hdigit h
  split at h
  · next hword =>
    refine lt_of_identifierAt hb ?_ h
    simp only [isAscii, Text.isWord, Char.isAlphanum, Bool.or_eq_true] at hword ⊢
    exact hword.imp_left .inl
  · exact absurd h strayAt_ne_ok

end

/-! ## All tokens -/

/-- The tokens from an offset on, each with the position that is looked up for the offset where it
begins. -/
def tokensFrom (text : String) (i : Nat) : Scan (Except Error (List PlacedToken)) :=
  if i < text.utf8ByteSize then
    match _hb : byteAt text i with
    | .error trap => .error trap
    | .ok b =>
      if isAscii Text.isLayout b then tokensFrom text (i + 1)
      else
        match _h : tokenAt text i b with
        | .error trap => .error trap
        | .ok (.error fault) => .ok (.error ((Fault.lexical fault).errorAt ((LineStarts.ofText text).position i)))
        | .ok (.ok (token, next)) =>
          (tokensFrom text next).map fun tokens =>
            tokens.map (⟨token, (LineStarts.ofText text).position i⟩ :: ·)
  else .ok (.ok [])
termination_by text.utf8ByteSize - i
decreasing_by
  · omega
  · have := lt_of_tokenAt (by assumption) (by assumption)
    omega

section
variable {text : String} {i next : Nat} {b : UInt8} {token : Token} {fault : LexFault}

theorem tokensFrom_end (h : text.utf8ByteSize ≤ i) : tokensFrom text i = .ok (.ok []) := by
  rw [tokensFrom, if_neg (Nat.not_lt_of_le h)]

theorem tokensFrom_byte (hb : byteAt text i = .ok b) : tokensFrom text i =
    if isAscii Text.isLayout b then tokensFrom text (i + 1)
    else match tokenAt text i b with
      | .error trap => .error trap
      | .ok (.error fault) => .ok (.error ((Fault.lexical fault).errorAt ((LineStarts.ofText text).position i)))
      | .ok (.ok (token, next)) =>
        (tokensFrom text next).map fun tokens =>
          tokens.map (⟨token, (LineStarts.ofText text).position i⟩ :: ·) := by
  rw [tokensFrom, if_pos (lt_of_byteAt hb)]
  split
  · next htrap => rw [hb] at htrap; cases htrap
  · next hok =>
    cases hb.symm.trans hok
    congr 1
    split <;> next htoken => rw [htoken]

theorem tokensFrom_layout (hb : byteAt text i = .ok b) (hl : isAscii Text.isLayout b = true) :
    tokensFrom text i = tokensFrom text (i + 1) := by
  rw [tokensFrom_byte hb, if_pos hl]

theorem tokensFrom_fault (hb : byteAt text i = .ok b) (hl : isAscii Text.isLayout b = false)
    (h : tokenAt text i b = .ok (.error fault)) : tokensFrom text i =
      .ok (.error ((Fault.lexical fault).errorAt ((LineStarts.ofText text).position i))) := by
  rw [tokensFrom_byte hb, if_neg (by simp [hl]), h]

theorem tokensFrom_token (hb : byteAt text i = .ok b) (hl : isAscii Text.isLayout b = false)
    (h : tokenAt text i b = .ok (.ok (token, next))) : tokensFrom text i =
      (tokensFrom text next).map fun tokens =>
        tokens.map (⟨token, (LineStarts.ofText text).position i⟩ :: ·) := by
  rw [tokensFrom_byte hb, if_neg (by simp [hl]), h]

end

def tokenize (text : String) : Scan (Except Error (List PlacedToken)) :=
  tokensFrom text 0

end MailSieve.ByteLexer
