import MailSieve.Proofs.Offsets

/-!
# The order of texts and of their bytes

Texts are ordered by their characters. The UTF-8 form keeps this order: of two characters the
smaller one has the smaller form, and neither form begins the other.
-/

namespace MailSieve.Text

theorem utf8EncodeChar_append_lt {c d : Char} (h : c < d) (bs bs' : List UInt8) :
    String.utf8EncodeChar c ++ bs < String.utf8EncodeChar d ++ bs' := by
  have hlt : c.val.toNat < d.val.toNat := h
  have hmax : d.val.toNat < 0x110000 := by
    rcases d.valid with hd | hd
    · exact Nat.lt_trans hd (by decide)
    · exact hd.2
  unfold String.utf8EncodeChar
  dsimp only
  split_ifs
  all_goals
    simp only [List.cons_append, List.nil_append, List.cons_lt_cons_iff, UInt8.lt_iff_toNat_lt, ← UInt8.toNat_inj,
      UInt8.toNat_ofNat']
    -- no byte overflows
    simp (disch := omega) only [Nat.mod_eq_of_lt]
    omega

/-- A smaller text has the smaller bytes. -/
theorem bytes_lt_of_lt {cs ds : List Char} (h : cs < ds) : bytes cs < bytes ds := by
  induction h with
  | @nil c cs =>
    obtain ⟨b, bs, hbytes⟩ := List.exists_cons_of_ne_nil (bytes_ne_nil (List.cons_ne_nil c cs))
    rw [hbytes]
    exact .nil
  | rel h =>
    rw [bytes_cons, bytes_cons]
    exact utf8EncodeChar_append_lt h _ _
  | cons h ih =>
    rw [bytes_cons, bytes_cons]
    exact List.Lex.append_left _ ih _

end MailSieve.Text
