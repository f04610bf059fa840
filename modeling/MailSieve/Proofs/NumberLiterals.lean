import MailSieve.Proofs.Overflow

/-!
# Numbers as they are written

A number of any length is one token, which holds it as it is written, and it is read as exactly
the number it stands for or refused, however many zeros it begins with.
-/

namespace MailSieve.Literal

variable {digits : List Char} {q : Option Char}

/-- A number is cut off as one token before what is neither a digit nor a quantifier. -/
theorem tokenizeFrom_number (hne : digits ≠ []) (hdigits : ∀ c ∈ digits, c.isDigit = true)
    (hq : ∀ c ∈ q, Cut.isQuantifier c = true) (p : Position) (rest : List Char)
    (hrest : ∀ c ∈ rest.head?, c.isDigit = false ∧ Cut.isQuantifier c = false) :
    tokenizeFrom p (digits ++ (q.toList ++ rest)) =
      (tokenizeFrom (p.advance (digits ++ q.toList)) rest).map
        (⟨.number (String.ofList (digits ++ q.toList)), p⟩ :: ·) := by
  have hend := Cut.numberEnd_literal hdigits hq hrest
  obtain ⟨c, ds, rfl⟩ := List.exists_cons_of_ne_nil hne
  have hc : c.isDigit = true := hdigits c List.mem_cons_self
  have hlayout : Text.isLayout c = false :=
    Text.isLayout_of_isWord (by simp [Text.isWord, Char.isAlphanum, hc])
  rw [List.cons_append] at hend ⊢
  have hcut := Cut.split_number hc (ds ++ (q.toList ++ rest))
  rw [hend] at hcut
  exact tokenizeFrom_cut hlayout hcut

theorem message_numberRange (literal : String) :
    (Fault.literal (.numberRange literal)).error.message = "syntax error: number out of range: " ++ literal := by
  show ("syntax error" ++ "" ++ ": ") ++ ("number out of range: " ++ literal) = _
  rw [← String.append_assoc]
  rfl

/-- A number is read as the value of its digits times its factor if that is below 2^64, and
refused otherwise. In a text it is one token that holds it as it is written. -/
theorem numbers_exact (digits : List Char) (q : Option Char) (hne : digits ≠ [])
    (hdigits : ∀ c ∈ digits, c.isDigit = true) (hq : ∀ c ∈ q, Cut.isQuantifier c = true) :
    let literal := String.ofList (digits ++ q.toList)
    let value := Text.digitsValue digits * multiplier q.toList
    (value < 2 ^ 64 → number literal = .ok value) ∧
    (2 ^ 64 ≤ value → number literal = .error (.numberRange literal) ∧
      (Fault.literal (.numberRange literal)).error.message = "syntax error: number out of range: " ++ literal) ∧
    tokenize literal = .ok [⟨.number literal, .start⟩] ∧
    ∀ (p : Position) (rest : List Char), (∀ c ∈ rest.head?, c.isDigit = false ∧ Cut.isQuantifier c = false) →
      tokenizeFrom p (digits ++ (q.toList ++ rest)) =
        (tokenizeFrom (p.advance (digits ++ q.toList)) rest).map (⟨.number literal, p⟩ :: ·) := by
  intro literal value
  have hread : number literal = if value < 2 ^ 64 then .ok value else .error (.numberRange literal) := by
    rw [number_append hne hdigits hq, magnitude_append hdigits hq]
  have htoken := tokenizeFrom_number hne hdigits hq
  refine ⟨?_, ?_, ?_, htoken⟩
  · intro hlt
    rw [hread, if_pos hlt]
  · intro hge
    rw [hread, if_neg (Nat.not_lt.2 hge)]
    exact ⟨rfl, message_numberRange literal⟩
  · have halone := htoken .start [] nofun
    rw [List.append_nil, tokenizeFrom] at halone
    rw [tokenize, String.toList_ofList]
    exact halone

def gigabytes : List Char := ['0', '0', '1', '7', '1', '7', '9', '8', '6', '9', '1', '8', '4']

theorem numbers_exact_leadingZeros :
    gigabytes ≠ [] ∧ (∀ c ∈ gigabytes, c.isDigit = true) ∧ Cut.isQuantifier 'g' = true ∧
      Text.digitsValue gigabytes * multiplier ['g'] = 2 ^ 64 ∧
      number "0017179869184g" = .error (.numberRange "0017179869184g") ∧
      tokenizeFrom ⟨3, 7⟩ (gigabytes ++ ['g', 'i', 'b']) =
        .ok [⟨.number "0017179869184g", ⟨3, 7⟩⟩, ⟨.identifier "ib", ⟨3, 21⟩⟩] := by
  have hne : gigabytes ≠ [] := List.cons_ne_nil _ _
  have hdigits : ∀ c ∈ gigabytes, c.isDigit = true := List.all_eq_true.1 rfl
  have hquantifier : ∀ c ∈ some 'g', Cut.isQuantifier c = true := by
    rintro c ⟨⟩
    rfl
  have hrest : ∀ c ∈ ['i', 'b'].head?, c.isDigit = false ∧ Cut.isQuantifier c = false := by
    rintro c ⟨⟩
    exact ⟨rfl, rfl⟩
  have hvalue : Text.digitsValue gigabytes * multiplier ['g'] = 2 ^ 64 := by decide
  obtain ⟨-, hrefused, -, htoken⟩ := numbers_exact gigabytes (some 'g') hne hdigits hquantifier
  refine ⟨hne, hdigits, rfl, hvalue, (hrefused (Nat.le_of_eq hvalue.symm)).1, ?_⟩
  exact (htoken ⟨3, 7⟩ ['i', 'b'] hrest).trans (by cbv)

end MailSieve.Literal
