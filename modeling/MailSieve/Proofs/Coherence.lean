import MailSieve.Proofs.Spacing
import MailSieve.Proofs.Wildcards

/-!
# The three ways to compare

A key whose wildcards are escaped is a pattern of literal characters. It matches the values
equal to the key, and between two stars the values that contain it. Both comparators compare
characters by what they fold to, so both facts are proved for any such folding.
-/

namespace MailSieve

namespace Text

theorem occurs_iff_infix {key text : List Char} : occurs key text = true ↔ key <:+: text := by
  induction text with
  | nil => simp [occurs]
  | cons c cs ih => simp [occurs, ih, List.infix_cons_iff]

end Text

namespace Glob

def special : List Char := ['*', '?', '\\']

def quote (s : String) : String :=
  Text.escaped special s

/-! ## Escaped keys as patterns -/

/-- What is escaped is literal, whatever pattern goes on after it. -/
theorem spells_escape_append {rest : List Char} {gs : List Glob} (h : Spells rest gs) :
    ∀ key : List Char, Spells (Text.escape special key ++ rest) (key.map literal ++ gs)
  | [] => h
  | c :: cs => by
    have hcs := spells_escape_append h cs
    by_cases hc : c ∈ special
    · rw [Text.escape_cons_of_mem hc]
      exact .escaped hcs
    · rw [Text.escape_cons_of_not_mem hc]
      exact .plain hc hcs

theorem ofChars_escape (key : List Char) : ofChars (Text.escape special key) = key.map literal := by
  have h := spells_escape_append .nil key
  rw [List.append_nil, List.append_nil] at h
  exact h.eq_ofChars.symm

theorem ofChars_starred (key : List Char) :
    ofChars ('*' :: (Text.escape special key ++ ['*'])) = star :: (key.map literal ++ [star]) := by
  have hlast : Spells ['*'] [star] := .star .nil
  exact (Spells.star (spells_escape_append hlast key)).eq_ofChars.symm

/-! ## What literal characters match -/

def alike (fold : Char → Char) (a b : Char) : Bool :=
  fold a == fold b

section
variable {fold : Char → Char} {gs : List Glob} {key w : List Char}

theorem mem_language_literals :
    w ∈ language (alike fold) (key.map literal ++ gs) ↔
      ∃ v u, w = v ++ u ∧ v.map fold = key.map fold ∧ u ∈ language (alike fold) gs := by
  induction key generalizing w with
  | nil => simp
  | cons c cs ih =>
    rw [List.map_cons, List.cons_append, mem_language_cons_of_ne_star (by simp)]
    constructor
    · intro h
      obtain ⟨d, w', rfl, hd, hw'⟩ := h
      obtain ⟨v, u, rfl, hv, hu⟩ := ih.1 hw'
      have hsame : alike fold c d = true := takes_literal.1 hd
      have hfold : fold c = fold d := beq_iff_eq.1 hsame
      exact ⟨d :: v, u, rfl, by rw [List.map_cons, List.map_cons, hv, hfold], hu⟩
    · intro h
      obtain ⟨v, u, rfl, hv, hu⟩ := h
      obtain ⟨d, v, rfl, hd, hv⟩ := List.map_eq_cons_iff.1 hv
      exact ⟨d, v ++ u, rfl, takes_literal.2 (beq_iff_eq.2 hd.symm), ih.2 ⟨v, u, rfl, hv, hu⟩⟩

theorem mem_language_key : w ∈ language (alike fold) (key.map literal) ↔ w.map fold = key.map fold := by
  have h := @mem_language_literals fold [] key w
  rw [List.append_nil] at h
  rw [h]
  constructor
  · intro h
    obtain ⟨v, u, rfl, hv, hu⟩ := h
    rw [mem_language_nil.1 hu, List.append_nil, hv]
  · intro h
    exact ⟨w, [], (List.append_nil w).symm, h, mem_language_nil.2 rfl⟩

/-- The first star takes in what stands before the key, and the last one what stands after. -/
theorem mem_language_starred :
    w ∈ language (alike fold) (star :: (key.map literal ++ [star])) ↔ key.map fold <:+: w.map fold := by
  rw [mem_language_star]
  constructor
  · intro h
    obtain ⟨_, ⟨before, rfl⟩, hmem⟩ := h
    obtain ⟨v, after, rfl, hv, -⟩ := mem_language_literals.1 hmem
    exact ⟨before.map fold, after.map fold, by simp [hv]⟩
  · intro h
    obtain ⟨_, _, hw⟩ := h
    obtain ⟨_, after, rfl, hfront, -⟩ := List.map_eq_append_iff.1 hw.symm
    obtain ⟨before, v, rfl, -, hv⟩ := List.map_eq_append_iff.1 hfront
    have hstar : after ∈ language (alike fold) [star] :=
      mem_language_star.2 ⟨[], List.nil_suffix, mem_language_nil.2 rfl⟩
    exact ⟨v ++ after, ⟨before, (List.append_assoc ..).symm⟩,
      mem_language_literals.2 ⟨v, after, rfl, hv, hstar⟩⟩

end

/-! ## Matching escaped keys -/

theorem accepts_escape (fold : Char → Char) (key text : List Char) :
    accepts (alike fold) (ofChars (Text.escape special key)) text = (text.map fold == key.map fold) := by
  rw [ofChars_escape, Bool.eq_iff_iff, (accepts_decides ..).answer_iff, mem_language_key, beq_iff_eq]

theorem accepts_starred (fold : Char → Char) (key text : List Char) :
    accepts (alike fold) (ofChars ('*' :: (Text.escape special key ++ ['*']))) text =
      Text.occurs (key.map fold) (text.map fold) := by
  rw [ofChars_starred, Bool.eq_iff_iff, (accepts_decides ..).answer_iff, mem_language_starred,
    Text.occurs_iff_infix]

theorem toList_quote (key : String) : (quote key).toList = Text.escape special key.toList :=
  String.toList_ofList

theorem toList_starred (key : String) :
    ("*" ++ quote key ++ "*").toList = '*' :: (Text.escape special key.toList ++ ['*']) := by
  simp [toList_quote]

end Glob

namespace Comparator

/-- Equality and containment are matches of the escaped key, by itself and between stars. -/
structure Coherent (comparator : Comparator) : Prop where
  equals : ∀ value key, comparator.globs value (Glob.quote key) = comparator.equals value key
  contains : ∀ value key, comparator.globs value ("*" ++ Glob.quote key ++ "*") = comparator.contains value key

/-- A comparator whose three ways go by what characters fold to is coherent. -/
theorem coherent_of_fold {comparator : Comparator} (fold : Char → Char)
    (hequals : ∀ value key, comparator.equals value key = (value.toList.map fold == key.toList.map fold))
    (hcontains : ∀ value key,
      comparator.contains value key = Text.occurs (key.toList.map fold) (value.toList.map fold))
    (hglobs : ∀ value key,
      comparator.globs value key = Glob.accepts (Glob.alike fold) (Glob.ofChars key.toList) value.toList) :
    comparator.Coherent where
  equals value key := by
    rw [hglobs, hequals, Glob.toList_quote, Glob.accepts_escape]
  contains value key := by
    rw [hglobs, hcontains, Glob.toList_starred, Glob.accepts_starred]

theorem octet_equals (value key : String) :
    octet.equals value key = (value.toList.map id == key.toList.map id) := by
  rw [List.map_id, List.map_id, Bool.eq_iff_iff, beq_iff_eq, String.toList_inj]
  exact beq_iff_eq

theorem octet_contains (value key : String) :
    octet.contains value key = Text.occurs (key.toList.map id) (value.toList.map id) := by
  rw [List.map_id, List.map_id]
  rfl

/-- Both comparators find a key equal, or contained, where they match it as a pattern of literal
characters. -/
theorem builtin_coherent : octet.Coherent ∧ asciiCasemap.Coherent := by
  constructor
  · exact coherent_of_fold id octet_equals octet_contains fun _ _ => rfl
  · exact coherent_of_fold Char.toLower (fun _ _ => rfl) (fun _ _ => rfl) fun _ _ => rfl

example : asciiCasemap.globs "20% OFF\\*é?" (Glob.quote "20% off\\*é?") = true := by cbv

end Comparator

end MailSieve
