import MailSieve.Proofs.Coherence

/-!
# Comparing up to case

One comparator folds ASCII letters: by lowering both texts, or while a match goes on. Either
way it answers what the other comparator answers about the lowered texts. For matches this
holds turn by turn, since lowering touches neither wildcards nor backslashes.
-/

namespace MailSieve

namespace Text

def RecasedChar (c d : Char) : Prop :=
  d = c ∨ d = c.toLower ∨ d = c.toUpper

def Recased (s s' : String) : Prop :=
  List.Forall₂ RecasedChar s.toList s'.toList

theorem toLower_of_recasedChar {c d : Char} (h : RecasedChar c d) : d.toLower = c.toLower := by
  rcases h with rfl | rfl | rfl
  · rfl
  · exact c.toLower_toLower_eq_toLower
  · exact c.toLower_toUpper_eq_toLower

theorem lowerChars_of_recased {cs ds : List Char} (h : List.Forall₂ RecasedChar cs ds) :
    lowerChars ds = lowerChars cs := by
  unfold lowerChars
  induction h with
  | nil => rfl
  | cons hc _ ih => rw [List.map_cons, List.map_cons, toLower_of_recasedChar hc, ih]

theorem lowerText_of_recased {s s' : String} (h : Recased s s') : lowerText s' = lowerText s := by
  unfold lowerText
  rw [lowerChars_of_recased h]

theorem map_lowerText_of_recased {ss ss' : List String} (h : List.Forall₂ Recased ss ss') :
    ss'.map lowerText = ss.map lowerText := by
  induction h with
  | nil => rfl
  | cons hs _ ih => rw [List.map_cons, List.map_cons, lowerText_of_recased hs, ih]

end Text

namespace Glob

def folded (fold : Char → Char) : Glob → Glob
  | literal c => literal (fold c)
  | g => g

section
variable (fold : Char → Char) (pattern : Array Glob) (text : Array Char)

theorem all_star_folded (used : Nat) :
    ((pattern.map (folded fold)).extract used).all (· == star) = (pattern.extract used).all (· == star) := by
  have hstar : ∀ g : Glob, (folded fold g == star) = (g == star) := by
    intro g
    cases g <;> rfl
  have hrest : (pattern.map (folded fold)).extract used = (pattern.extract used).map (folded fold) := by
    rw [Array.map_extract, Array.size_map]
  simp only [hrest, Array.all_map, Function.comp_def, hstar]

/-- Both matches take the same turn. -/
theorem turn_folded (c : Cursor) :
    turn (· == ·) (pattern.map (folded fold)) (text.map fold) c = turn (alike fold) pattern text c := by
  unfold turn
  rw [Array.getElem?_map, Array.getElem?_map, all_star_folded]
  cases text[c.read]? with
  | none => rfl
  | some d =>
    cases pattern[c.used]? with
    | none => rfl
    | some g => cases g <;> rfl

theorem run_folded (c : Cursor) (hc : c.Valid pattern text)
    (hc' : c.Valid (pattern.map (folded fold)) (text.map fold)) :
    run (· == ·) (pattern.map (folded fold)) (text.map fold) c hc' = run (alike fold) pattern text c hc := by
  fun_induction run (alike fold) pattern text c hc with
  | case1 c hc matched h =>
    rw [run]
    split
    · next h' =>
      rw [turn_folded, h] at h'
      cases h'
      rfl
    · next h' =>
      rw [turn_folded, h] at h'
      cases h'
  | case2 c hc c₁ h ih =>
    rw [run]
    split
    · next h' =>
      rw [turn_folded, h] at h'
      cases h'
    · next h' =>
      have hnext := h'
      rw [turn_folded, h] at hnext
      cases hnext
      exact ih (hc'.turn h')

end

theorem accepts_folded (fold : Char → Char) (pattern : List Glob) (text : List Char) :
    accepts (· == ·) (pattern.map (folded fold)) (text.map fold) = accepts (alike fold) pattern text := by
  unfold accepts
  simp only [← List.map_toArray]
  exact run_folded fold pattern.toArray text.toArray .start Cursor.valid_start Cursor.valid_start

theorem toLower_mem_special {c : Char} : c.toLower ∈ special ↔ c ∈ special := by
  by_cases hupper : c.isUpper = true
  · have hlower : c.toLower.isLower = true := by simp [Char.isAlpha, hupper]
    constructor
    · intro h
      simp only [special, List.mem_cons, List.not_mem_nil, or_false] at h
      rcases h with h | h | h <;> rw [h] at hlower <;> cases hlower
    · intro h
      simp only [special, List.mem_cons, List.not_mem_nil, or_false] at h
      rcases h with rfl | rfl | rfl <;> cases hupper
  · rw [Char.toLower_eq_of_not_isUpper hupper]

theorem Spells.lower {cs : List Char} {gs : List Glob} (h : Spells cs gs) :
    Spells (cs.map Char.toLower) (gs.map (folded Char.toLower)) := by
  induction h with
  | nil => exact .nil
  | star _ ih => exact .star ih
  | one _ ih => exact .one ih
  | escaped _ ih => exact .escaped ih
  | backslash => exact .backslash
  | plain hc _ ih => exact .plain (fun h => hc (toLower_mem_special.1 h)) ih

theorem ofChars_lower (cs : List Char) :
    ofChars (cs.map Char.toLower) = (ofChars cs).map (folded Char.toLower) :=
  (spells_ofChars cs).lower.eq_ofChars.symm

end Glob

namespace Comparator

/-- The comparator answers what `base` answers about the lowered value and the lowered key. -/
structure LowersTo (comparator base : Comparator) : Prop where
  equals : ∀ value key, comparator.equals value key = base.equals (Text.lowerText value) (Text.lowerText key)
  contains : ∀ value key, comparator.contains value key = base.contains (Text.lowerText value) (Text.lowerText key)
  globs : ∀ value key, comparator.globs value key = base.globs (Text.lowerText value) (Text.lowerText key)

theorem asciiCasemap_lowersTo : asciiCasemap.LowersTo octet where
  equals value key := by
    rw [octet_equals]
    simp [asciiCasemap, Text.sameFolded, Text.lowerText]
  contains value key := by
    rw [octet_contains]
    simp [asciiCasemap, Text.lowerText]
  globs value key := by
    show Glob.accepts (Glob.alike Char.toLower) _ _ = Glob.accepts (· == ·) _ _
    unfold Text.lowerText Text.lowerChars
    rw [String.toList_ofList, String.toList_ofList, Glob.ofChars_lower, Glob.accepts_folded]

theorem LowersTo.any {comparator base : Comparator} (h : comparator.LowersTo base) (m : MatchType)
    (values keys : List String) :
    m.any comparator values keys = m.any base (values.map Text.lowerText) (keys.map Text.lowerText) := by
  have hholds : ∀ value, m.holds comparator value =
      fun key => m.holds base (Text.lowerText value) (Text.lowerText key) := by
    intro value
    funext key
    cases m with
    | is => exact h.equals value key
    | contains => exact h.contains value key
    | globs => exact h.globs value key
  simp only [MatchType.any, List.any_map, Function.comp_def, hholds]

/-- The comparator that folds case is the other one on lowered texts, so the case of ASCII
letters does not matter to it. -/
theorem asciiCasemap_foldsCase :
    asciiCasemap.LowersTo octet ∧
    ∀ (m : MatchType) (values values' keys keys' : List String), List.Forall₂ Text.Recased values values' →
      List.Forall₂ Text.Recased keys keys' →
      m.any asciiCasemap values' keys' = m.any asciiCasemap values keys := by
  refine ⟨asciiCasemap_lowersTo, ?_⟩
  intro m values values' keys keys' hvalues hkeys
  rw [asciiCasemap_lowersTo.any, asciiCasemap_lowersTo.any, Text.map_lowerText_of_recased hvalues,
    Text.map_lowerText_of_recased hkeys]

/-- A letter with an accent keeps its case, and what a backslash makes literal may change it. -/
theorem asciiCasemap_foldsCase_escaped :
    List.Forall₂ Text.Recased ["Re: 20% OFF *É*"] ["rE: 20% off *É*"] ∧
    List.Forall₂ Text.Recased ["spam", "re:*\\OFF \\*É?"] ["SPAM", "Re:*\\oFf \\*É?"] ∧
    MatchType.globs.any asciiCasemap ["rE: 20% off *É*"] ["SPAM", "Re:*\\oFf \\*É?"] =
      MatchType.globs.any asciiCasemap ["Re: 20% OFF *É*"] ["spam", "re:*\\OFF \\*É?"] := by
  have hvalues : List.Forall₂ Text.Recased ["Re: 20% OFF *É*"] ["rE: 20% off *É*"] := by
    simp [Text.Recased, Text.RecasedChar]
  have hkeys : List.Forall₂ Text.Recased ["spam", "re:*\\OFF \\*É?"] ["SPAM", "Re:*\\oFf \\*É?"] := by
    simp [Text.Recased, Text.RecasedChar]
  exact ⟨hvalues, hkeys, asciiCasemap_foldsCase.2 .globs _ _ _ _ hvalues hkeys⟩

end Comparator

end MailSieve
