import Mathlib
import MailSieve.Script.Literal

/-!
# Numbers that are checked step by step

A number is read in words of 64 bits, digit by digit, and each step checks that it does not lead
out of range. A step only makes a number larger, so no number that fits is refused on the way,
and one that does not is refused at some step: together the checks ask whether the exact result
fits.
-/

namespace MailSieve.Literal

def word? (n : Nat) : Option UInt64 :=
  if n < numberBound then some (UInt64.ofNat n) else none

theorem word?_of_lt {n : Nat} (h : n < numberBound) : word? n = some (UInt64.ofNat n) := if_pos h

theorem word?_of_le {n : Nat} (h : numberBound ≤ n) : word? n = none := if_neg (Nat.not_lt.2 h)

theorem toNat_ofNat {n : Nat} (h : n < numberBound) : (UInt64.ofNat n).toNat = n :=
  UInt64.toNat_ofNat_of_lt h

/-! ## One step -/

section
variable (n : Nat) (a b : UInt64)

theorem plus?_eq : plus? a b = word? (a.toNat + b.toNat) := by
  unfold plus? word?
  split
  · next h => rw [UInt64.ofNat_add, UInt64.ofNat_toNat, UInt64.ofNat_toNat]
  · rfl

theorem times?_eq : times? a b = word? (a.toNat * b.toNat) := by
  unfold times? word?
  split
  · next h => rw [UInt64.ofNat_mul, UInt64.ofNat_toNat, UInt64.ofNat_toNat]
  · rfl

theorem word?_plus? : (word? n).bind (plus? · b) = word? (n + b.toNat) := by
  rcases Nat.lt_or_ge n numberBound with h | h
  · rw [word?_of_lt h, Option.bind_some, plus?_eq, toNat_ofNat h]
  · rw [word?_of_le h, word?_of_le (Nat.le_add_right_of_le h), Option.bind_none]

theorem word?_times? (hb : 0 < b.toNat) : (word? n).bind (times? · b) = word? (n * b.toNat) := by
  rcases Nat.lt_or_ge n numberBound with h | h
  · rw [word?_of_lt h, Option.bind_some, times?_eq, toNat_ofNat h]
  · rw [word?_of_le h, word?_of_le (Nat.le_trans h (Nat.le_mul_of_pos_right n hb)), Option.bind_none]

end

theorem toNat_digit {d : Char} (hd : d.isDigit = true) :
    (d.toNat - '0'.toNat).toUInt64.toNat = d.toNat - '0'.toNat := by
  apply toNat_ofNat
  simp only [Char.isDigit, Bool.and_eq_true, decide_eq_true_eq, UInt32.le_iff_toNat_le] at hd
  have hle : d.toNat ≤ 57 := hd.2
  unfold numberBound UInt64.size
  omega

theorem word?_appendDigit? (n : Nat) {d : Char} (hd : d.isDigit = true) :
    (word? n).bind (appendDigit? · d) = word? (10 * n + (d.toNat - '0'.toNat)) := by
  have hstep : ∀ a : UInt64, appendDigit? a d = (times? a 10).bind (plus? · (d.toNat - '0'.toNat).toUInt64) :=
    fun a => if_pos hd
  simp only [hstep]
  rw [← Option.bind_assoc, word?_times? n 10 (by decide), word?_plus?, toNat_digit hd, Nat.mul_comm n]
  rfl

/-! ## All the digits -/

theorem word?_foldlM {ds : List Char} (hds : ∀ d ∈ ds, d.isDigit = true) (n : Nat) :
    (word? n).bind (fun a => ds.foldlM appendDigit? a) =
      word? (ds.foldl (fun n d => 10 * n + (d.toNat - '0'.toNat)) n) := by
  induction ds generalizing n with
  | nil => exact Option.bind_fun_some (word? n)
  | cons d ds ih =>
    obtain ⟨hd, hds⟩ := List.forall_mem_cons.1 hds
    rw [List.foldl_cons, ← ih hds, ← word?_appendDigit? n hd, Option.bind_assoc]
    rfl

theorem natural?_of_isDigit {ds : List Char} (hds : ∀ c ∈ ds, c.isDigit = true) (hne : ds ≠ []) :
    natural? ds = word? (Text.digitsValue ds) := by
  have hempty : ds.isEmpty = false := List.isEmpty_eq_false_iff.2 hne
  have hfold := word?_foldlM hds 0
  rw [word?_of_lt (by decide), Option.bind_some] at hfold
  unfold natural?
  split
  · cases hds '+' List.mem_cons_self
  · simp only [hempty, Bool.false_eq_true, if_false]
    exact hfold

/-- The checks of the digits and of the factor are together one check of the product. -/
theorem number_of_quantified {literal : String} {ds : List Char} {factor : UInt64}
    (h : quantified literal.toList = (ds, factor)) (hds : ∀ c ∈ ds, c.isDigit = true) (hne : ds ≠ [])
    (hfactor : 0 < factor.toNat) :
    number literal = if Text.digitsValue ds * factor.toNat < numberBound
      then .ok (Text.digitsValue ds * factor.toNat) else .error (.numberRange literal) := by
  unfold number
  simp only [h]
  rw [natural?_of_isDigit hds hne, word?_times? _ _ hfactor]
  split
  · next n hn =>
    unfold word? at hn
    split at hn
    · next hlt =>
      cases hn
      rw [if_pos hlt, toNat_ofNat hlt]
    · cases hn
  · next hn =>
    unfold word? at hn
    split at hn
    · cases hn
    · next hge => rw [if_neg hge]

end MailSieve.Literal
