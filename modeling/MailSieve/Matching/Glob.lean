/-!
# Patterns with wildcards

A star stands for any sequence of characters and a question mark for any one
character; a backslash makes the next character literal. Matching goes forward
with at most one place to return to: the last star, which then takes in one
character more.
-/

namespace MailSieve

inductive Glob
  | star
  | one
  | literal (c : Char)
deriving DecidableEq

namespace Glob

/-- The pattern a text stands for. A backslash at the end is literal. -/
def ofChars : List Char → List Glob
  | [] => []
  | ['\\'] => [literal '\\']
  | '\\' :: c :: cs => literal c :: ofChars cs
  | '*' :: cs => star :: ofChars cs
  | '?' :: cs => one :: ofChars cs
  | c :: cs => literal c :: ofChars cs

structure Cursor where
  read : Nat
  used : Nat
  /-- The place of the last star in the pattern, and where the text after what it
  takes in begins. -/
  back : Option (Nat × Nat)

namespace Cursor

def start : Cursor := ⟨0, 0, none⟩

def advance (c : Cursor) : Cursor :=
  ⟨c.read + 1, c.used + 1, c.back⟩

def passStar (c : Cursor) : Cursor :=
  ⟨c.read, c.used + 1, some (c.used, c.read)⟩

/-- Back after the star at `s`, which takes in the character at `f` as well. -/
def widen (s f : Nat) : Cursor :=
  ⟨f + 1, s + 1, some (s, f + 1)⟩

end Cursor

inductive Turn
  | next (c : Cursor)
  | done (matched : Bool)

def Cursor.retry (c : Cursor) : Turn :=
  match c.back with
  | some (s, f) => .next (.widen s f)
  | none => .done false

/-- One turn of the match. At the end of the text, only stars may be left. -/
def turn (same : Char → Char → Bool) (pattern : Array Glob) (text : Array Char) (c : Cursor) :
    Turn :=
  match text[c.read]? with
  | none => .done ((pattern.extract c.used).all (· == star))
  | some d =>
    match pattern[c.used]? with
    | some star => .next c.passStar
    | some one => .next c.advance
    | some (literal e) => if same e d then .next c.advance else c.retry
    | none => c.retry

section
variable {same : Char → Char → Bool} {pattern : Array Glob} {text : Array Char} {c c' : Cursor}

/-! ## The match ends -/

structure Cursor.Valid (pattern : Array Glob) (text : Array Char) (c : Cursor) : Prop where
  used_le : c.used ≤ pattern.size
  read_le : c.read ≤ text.size
  back_le : ∀ s f, c.back = some (s, f) → s < c.used ∧ f ≤ c.read

theorem Cursor.valid_start : Cursor.start.Valid pattern text :=
  ⟨Nat.zero_le _, Nat.zero_le _, nofun⟩

theorem Cursor.retry_eq_next (h : c.retry = .next c') : ∃ s f, c.back = some (s, f) ∧ c' = .widen s f := by
  unfold retry at h
  split at h
  · next s f hback => exact ⟨s, f, hback, (Turn.next.inj h).symm⟩
  · cases h

/-- The ways in which a match goes on. -/
theorem turn_eq_next (h : turn same pattern text c = .next c') :
    c.read < text.size ∧
      (c.used < pattern.size ∧ (c' = c.passStar ∨ c' = c.advance) ∨
        ∃ s f, c.back = some (s, f) ∧ c' = .widen s f) := by
  unfold turn at h
  split at h
  · cases h
  next d hd =>
  refine ⟨(Array.getElem?_eq_some_iff.1 hd).1, ?_⟩
  split at h
  · next hused => exact .inl ⟨(Array.getElem?_eq_some_iff.1 hused).1, .inl (Turn.next.inj h).symm⟩
  · next hused => exact .inl ⟨(Array.getElem?_eq_some_iff.1 hused).1, .inr (Turn.next.inj h).symm⟩
  · next e hused =>
    split at h
    · exact .inl ⟨(Array.getElem?_eq_some_iff.1 hused).1, .inr (Turn.next.inj h).symm⟩
    · exact .inr (Cursor.retry_eq_next h)
  · exact .inr (Cursor.retry_eq_next h)

theorem Cursor.Valid.turn (hc : c.Valid pattern text) (h : turn same pattern text c = .next c') :
    c'.Valid pattern text := by
  obtain ⟨hread, ⟨hused, rfl | rfl⟩ | ⟨s, f, hback, rfl⟩⟩ := turn_eq_next h
  · refine ⟨hused, hc.read_le, ?_⟩
    rintro s f ⟨⟩
    exact ⟨Nat.lt_succ_self _, Nat.le_refl _⟩
  · refine ⟨hused, hread, ?_⟩
    intro s f hback
    have hsf := hc.back_le s f hback
    exact ⟨Nat.lt_succ_of_lt hsf.1, Nat.le_succ_of_le hsf.2⟩
  · have hsf := hc.back_le s f hback
    have hused := hc.used_le
    refine ⟨?_, ?_, ?_⟩
    · simp only [Cursor.widen]; omega
    · simp only [Cursor.widen]; omega
    · rintro s' f' ⟨⟩
      exact ⟨Nat.lt_succ_self _, Nat.le_refl _⟩

/-- What is left of the pattern after the last star, of the text after what the
star takes in, and of the text. -/
def Cursor.left (pattern : Array Glob) (text : Array Char) (c : Cursor) : Nat × Nat × Nat :=
  match c.back with
  | some (s, f) => (pattern.size - (s + 1), text.size - f, text.size - c.read)
  | none => (pattern.size, text.size, text.size - c.read)

theorem Cursor.Valid.left_turn (hc : c.Valid pattern text) (h : Glob.turn same pattern text c = .next c') :
    Prod.Lex (· < ·) (Prod.Lex (· < ·) (· < ·)) (c'.left pattern text) (c.left pattern text) := by
  obtain ⟨hread, ⟨hused, rfl | rfl⟩ | ⟨s, f, hback, rfl⟩⟩ := turn_eq_next h
  · cases hback : c.back with
    | none =>
      simp only [left, passStar, hback]
      exact .left _ _ (by omega)
    | some b =>
      have hsf := hc.back_le b.1 b.2 hback
      simp only [left, passStar, hback]
      exact .left _ _ (by omega)
  · cases hback : c.back <;>
    · simp only [left, advance, hback]
      exact .right _ (.right _ (by omega))
  · have hsf := hc.back_le s f hback
    simp only [left, widen, hback]
    exact .right _ (.left _ _ (by omega))

end

def run (same : Char → Char → Bool) (pattern : Array Glob) (text : Array Char) (c : Cursor)
    (hc : c.Valid pattern text) : Bool :=
  match h : turn same pattern text c with
  | .done matched => matched
  | .next c' => run same pattern text c' (hc.turn h)
termination_by c.left pattern text
decreasing_by exact hc.left_turn h

/-- Whether the whole text matches the pattern, characters being compared by
`same`. -/
def accepts (same : Char → Char → Bool) (pattern : List Glob) (text : List Char) : Bool :=
  run same pattern.toArray text.toArray .start Cursor.valid_start

end Glob

end MailSieve
