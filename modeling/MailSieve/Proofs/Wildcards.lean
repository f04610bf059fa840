import Mathlib
import MailSieve.Matching.Comparator

/-!
# Patterns as languages

The elements of a pattern stand for languages and a pattern for their product. A match
returns to the last star only. This is enough, for the elements between two stars take in one
character each: where they fit further on, the star after them is found no earlier than where
they fit first, and it makes up for the characters between.
-/

namespace MailSieve.Glob

/-! ## Languages -/

def words (same : Char → Char → Bool) : Glob → Language Char
  | star => ⊤
  | one => {w | ∃ d, w = [d]}
  | literal c => {w | ∃ d, same c d = true ∧ w = [d]}

def language (same : Char → Char → Bool) (pattern : List Glob) : Language Char :=
  (pattern.map (words same)).prod

/-- The element takes in one character, and this is one that it can take in. -/
def Takes (same : Char → Char → Bool) (g : Glob) (d : Char) : Prop :=
  g ≠ star ∧ [d] ∈ words same g

section
variable {same : Char → Char → Bool} {g : Glob} {gs seg : List Glob} {d : Char} {u v w : List Char}

theorem takes_one (d : Char) : Takes same one d := ⟨nofun, d, rfl⟩

theorem takes_literal {c : Char} : Takes same (literal c) d ↔ same c d = true := by
  constructor
  · intro h
    obtain ⟨e, he, heq⟩ := h.2
    cases heq
    exact he
  · intro h
    exact ⟨nofun, d, h, rfl⟩

theorem mem_language_nil : w ∈ language same [] ↔ w = [] := Language.mem_one w

theorem mem_language_cons :
    w ∈ language same (g :: gs) ↔ ∃ a ∈ words same g, ∃ b ∈ language same gs, a ++ b = w := by
  rw [language, List.map_cons, List.prod_cons]
  exact Language.mem_mul

theorem mem_language_star : w ∈ language same (star :: gs) ↔ ∃ u, u <:+ w ∧ u ∈ language same gs := by
  rw [mem_language_cons]
  constructor
  · intro h
    obtain ⟨a, -, u, hu, rfl⟩ := h
    exact ⟨u, List.suffix_append a u, hu⟩
  · intro h
    obtain ⟨u, ⟨a, rfl⟩, hu⟩ := h
    exact ⟨a, trivial, u, hu, rfl⟩

theorem eq_singleton_of_mem_words (hg : g ≠ star) (hw : w ∈ words same g) : ∃ d, w = [d] := by
  cases g with
  | star => exact absurd rfl hg
  | one => exact hw
  | literal c =>
    obtain ⟨d, -, hd⟩ := hw
    exact ⟨d, hd⟩

theorem mem_language_cons_of_ne_star (hg : g ≠ star) :
    w ∈ language same (g :: gs) ↔ ∃ d u, w = d :: u ∧ Takes same g d ∧ u ∈ language same gs := by
  rw [mem_language_cons]
  constructor
  · intro h
    obtain ⟨a, ha, u, hu, rfl⟩ := h
    obtain ⟨d, rfl⟩ := eq_singleton_of_mem_words hg ha
    exact ⟨d, u, rfl, ⟨hg, ha⟩, hu⟩
  · intro h
    obtain ⟨d, u, rfl, hd, hu⟩ := h
    exact ⟨[d], hd.2, u, hu, rfl⟩

theorem nil_mem_language : [] ∈ language same gs ↔ gs.all (· == star) = true := by
  induction gs with
  | nil => simp [mem_language_nil]
  | cons g gs ih =>
    by_cases hg : g = star
    · subst hg
      simp [mem_language_star, ih]
    · simp [mem_language_cons_of_ne_star hg, hg]

/-! ## Elements that take in one character each -/

theorem append_mem_language (h : List.Forall₂ (Takes same) seg v) :
    v ++ w ∈ language same (seg ++ gs) ↔ w ∈ language same gs := by
  induction h with
  | nil => rfl
  | @cons g d seg v hg _ ih =>
    rw [List.cons_append, List.cons_append, mem_language_cons_of_ne_star hg.1, ← ih]
    constructor
    · intro hmem
      obtain ⟨e, u, heq, -, hu⟩ := hmem
      cases heq
      exact hu
    · intro hu
      exact ⟨d, v ++ w, rfl, hg, hu⟩

theorem suffix_of_cons_suffix_cons {e : Char} (h : d :: u <:+ e :: v) : u <:+ v := by
  rcases List.suffix_cons_iff.1 h with heq | hsuffix
  · rw [(List.cons.inj heq).2]
  · exact (List.suffix_cons d u).trans hsuffix

/-- If the elements fit further on, what follows them does not begin earlier. -/
theorem suffix_mem_language (h : List.Forall₂ (Takes same) seg v) (hsuffix : u <:+ v ++ w)
    (hu : u ∈ language same (seg ++ gs)) : ∃ u', u' <:+ w ∧ u' ∈ language same gs := by
  induction h generalizing u with
  | nil => exact ⟨u, hsuffix, hu⟩
  | cons hg _ ih =>
    obtain ⟨d, u', rfl, -, hu'⟩ := (mem_language_cons_of_ne_star hg.1).1 hu
    exact ih (suffix_of_cons_suffix_cons hsuffix) hu'

end

/-! ## Turns -/

theorem drop_eq_cons {xs : List α} {i : Nat} {x : α} (h : xs[i]? = some x) : xs.drop i = x :: xs.drop (i + 1) := by
  obtain ⟨hi, rfl⟩ := List.getElem?_eq_some_iff.1 h
  exact List.drop_eq_getElem_cons hi

section
variable {same : Char → Char → Bool} {pattern : List Glob} {text : List Char} {c c' : Cursor}

/-- What is left of the text and of the pattern before a turn, and what the turn comes to. -/
theorem turn_cases (same : Char → Char → Bool) (pattern : List Glob) (text : List Char) (c : Cursor) :
    (text.drop c.read = [] ∧
        turn same pattern.toArray text.toArray c = .done ((pattern.drop c.used).all (· == star))) ∨
      ∃ d, text.drop c.read = d :: text.drop (c.read + 1) ∧
        ((pattern.drop c.used = star :: pattern.drop (c.used + 1) ∧
            turn same pattern.toArray text.toArray c = .next c.passStar) ∨
          (∃ g, pattern.drop c.used = g :: pattern.drop (c.used + 1) ∧ Takes same g d ∧
            turn same pattern.toArray text.toArray c = .next c.advance) ∨
          (text.drop c.read ∉ language same (pattern.drop c.used) ∧
            turn same pattern.toArray text.toArray c = c.retry)) := by
  cases hd : text[c.read]? with
  | none =>
    refine .inl ⟨List.drop_eq_nil_iff.2 (List.getElem?_eq_none_iff.1 hd), ?_⟩
    have hrest : (pattern.toArray.extract c.used).all (· == star) = (pattern.drop c.used).all (· == star) := by
      rw [← Array.all_toList, List.extract_toArray]
      simp [List.extract, List.take_of_length_le]
    simp only [turn, List.getElem?_toArray, hd, hrest]
  | some d =>
    have htext := drop_eq_cons hd
    refine .inr ⟨d, htext, ?_⟩
    cases hg : pattern[c.used]? with
    | none =>
      have hpattern : pattern.drop c.used = [] := List.drop_eq_nil_iff.2 (List.getElem?_eq_none_iff.1 hg)
      refine .inr (.inr ⟨?_, by simp [turn, hd, hg]⟩)
      rw [hpattern, htext, mem_language_nil]
      exact List.cons_ne_nil _ _
    | some g =>
      have hpattern := drop_eq_cons hg
      cases g with
      | star => exact .inl ⟨hpattern, by simp [turn, hd, hg]⟩
      | one => exact .inr (.inl ⟨one, hpattern, takes_one d, by simp [turn, hd, hg]⟩)
      | literal e =>
        by_cases hsame : same e d = true
        · exact .inr (.inl ⟨literal e, hpattern, takes_literal.2 hsame, by simp [turn, hd, hg, hsame]⟩)
        · refine .inr (.inr ⟨?_, by simp [turn, hd, hg, hsame]⟩)
          rw [hpattern, htext, mem_language_cons_of_ne_star (by simp)]
          intro hmem
          obtain ⟨d', u, heq, htakes, -⟩ := hmem
          cases heq
          exact hsame (takes_literal.1 htakes)

/-! ## What a match has found out -/

/-- Where the pattern and the text begin that the last star leaves to be matched. -/
def Cursor.since (c : Cursor) : Nat × Nat :=
  match c.back with
  | some (s, f) => (s + 1, f)
  | none => (0, 0)

/-- The elements used since the last star have taken in one character each, and whether the
text matches hangs on what follows this star alone. -/
structure Cursor.Follows (same : Char → Char → Bool) (pattern : List Glob) (text : List Char) (c : Cursor) :
    Prop where
  straight : ∃ seg v, pattern.drop c.since.1 = seg ++ pattern.drop c.used ∧
    text.drop c.since.2 = v ++ text.drop c.read ∧ List.Forall₂ (Takes same) seg v
  last : ∀ s f, c.back = some (s, f) →
    (text ∈ language same pattern ↔ text.drop f ∈ language same (star :: pattern.drop (s + 1)))

namespace Cursor.Follows

theorem start : Cursor.start.Follows same pattern text :=
  ⟨⟨[], [], rfl, rfl, .nil⟩, nofun⟩

/-- What follows the last star matches what it leaves as far as the rest does. -/
theorem since_iff (h : c.Follows same pattern text) :
    text.drop c.since.2 ∈ language same (pattern.drop c.since.1) ↔
      text.drop c.read ∈ language same (pattern.drop c.used) := by
  obtain ⟨seg, v, hseg, hv, htakes⟩ := h.straight
  rw [hseg, hv, append_mem_language htakes]

theorem mem_iff (h : c.Follows same pattern text) (hback : c.back = none) :
    text ∈ language same pattern ↔ text.drop c.read ∈ language same (pattern.drop c.used) := by
  rw [← h.since_iff]
  simp [since, hback]

theorem mem_of_rest (h : c.Follows same pattern text)
    (hrest : text.drop c.read ∈ language same (pattern.drop c.used)) : text ∈ language same pattern := by
  cases hback : c.back with
  | none => exact (h.mem_iff hback).2 hrest
  | some b =>
    have hsince := h.since_iff.2 hrest
    simp only [since, hback] at hsince
    rw [h.last b.1 b.2 hback, mem_language_star]
    exact ⟨_, List.suffix_refl _, hsince⟩

theorem rest_of_mem (h : c.Follows same pattern text) (hmem : text ∈ language same pattern) :
    ∃ u, u <:+ text.drop c.read ∧ u ∈ language same (pattern.drop c.used) := by
  cases hback : c.back with
  | none => exact ⟨_, List.suffix_refl _, (h.mem_iff hback).1 hmem⟩
  | some b =>
    obtain ⟨seg, v, hseg, hv, htakes⟩ := h.straight
    simp only [since, hback] at hseg hv
    rw [h.last b.1 b.2 hback, mem_language_star, hseg, hv] at hmem
    obtain ⟨u, hsuffix, hu⟩ := hmem
    exact suffix_mem_language htakes hsuffix hu

/-- Once a star is reached, those before it need not be returned to. -/
theorem passStar (h : c.Follows same pattern text)
    (hstar : pattern.drop c.used = star :: pattern.drop (c.used + 1)) :
    c.passStar.Follows same pattern text := by
  refine ⟨⟨[], [], rfl, rfl, .nil⟩, ?_⟩
  intro s f hback
  cases hback
  rw [← hstar]
  refine ⟨?_, h.mem_of_rest⟩
  intro hmem
  obtain ⟨u, hu, hmem⟩ := h.rest_of_mem hmem
  rw [hstar, mem_language_star] at hmem ⊢
  obtain ⟨u', hu', hmem⟩ := hmem
  exact ⟨u', hu'.trans hu, hmem⟩

theorem advance {g : Glob} {d : Char} (h : c.Follows same pattern text)
    (hpattern : pattern.drop c.used = g :: pattern.drop (c.used + 1))
    (htext : text.drop c.read = d :: text.drop (c.read + 1)) (hd : Takes same g d) :
    c.advance.Follows same pattern text := by
  obtain ⟨seg, v, hseg, hv, htakes⟩ := h.straight
  refine ⟨⟨seg ++ [g], v ++ [d], ?_, ?_, List.rel_append htakes (.cons hd .nil)⟩, h.last⟩
  · rw [List.append_assoc, List.singleton_append]
    exact hseg.trans (congrArg _ hpattern)
  · rw [List.append_assoc, List.singleton_append]
    exact hv.trans (congrArg _ htext)

/-- Where the elements after a star do not fit, the star takes in one character more. -/
theorem widen {s f : Nat} (h : c.Follows same pattern text) (hback : c.back = some (s, f)) (hf : f < text.length)
    (hrest : text.drop c.read ∉ language same (pattern.drop c.used)) :
    (Cursor.widen s f).Follows same pattern text := by
  refine ⟨⟨[], [], rfl, rfl, .nil⟩, ?_⟩
  intro s' f' hback'
  cases hback'
  have hsince : text.drop f ∉ language same (pattern.drop (s + 1)) := by
    rw [← h.since_iff] at hrest
    simpa only [since, hback] using hrest
  have htext : text.drop f = text[f] :: text.drop (f + 1) := List.drop_eq_getElem_cons hf
  rw [h.last s f hback, mem_language_star, mem_language_star]
  constructor
  · intro hmem
    obtain ⟨u, hu, hmem⟩ := hmem
    rw [htext, List.suffix_cons_iff, ← htext] at hu
    rcases hu with rfl | hu
    · exact absurd hmem hsince
    · exact ⟨u, hu, hmem⟩
  · intro hmem
    obtain ⟨u, hu, hmem⟩ := hmem
    rw [htext]
    exact ⟨u, hu.trans (List.suffix_cons _ _), hmem⟩

/-- A turn loses nothing of what has been found out. -/
theorem turn (h : c.Follows same pattern text) (hc : c.Valid pattern.toArray text.toArray)
    (hturn : Glob.turn same pattern.toArray text.toArray c = .next c') : c'.Follows same pattern text := by
  rcases turn_cases same pattern text c with
    ⟨-, hdone⟩ | ⟨d, htext, ⟨hstar, hnext⟩ | ⟨g, hg, hd, hnext⟩ | ⟨hrest, hretry⟩⟩
  · rw [hdone] at hturn
    cases hturn
  · rw [hnext] at hturn
    cases hturn
    exact h.passStar hstar
  · rw [hnext] at hturn
    cases hturn
    exact h.advance hg htext hd
  · rw [hretry] at hturn
    obtain ⟨s, f, hback, rfl⟩ := retry_eq_next hturn
    have hread : c.read < text.length := by
      by_contra hle
      rw [List.drop_eq_nil_of_le (Nat.not_lt.1 hle)] at htext
      cases htext
    exact h.widen hback ((hc.back_le s f hback).2.trans_lt hread) hrest

theorem answer {matched : Bool} (h : c.Follows same pattern text)
    (hturn : Glob.turn same pattern.toArray text.toArray c = .done matched) :
    matched = true ↔ text ∈ language same pattern := by
  rcases turn_cases same pattern text c with
    ⟨hend, hdone⟩ | ⟨d, htext, ⟨hstar, hnext⟩ | ⟨g, hg, hd, hnext⟩ | ⟨hrest, hretry⟩⟩
  · rw [hdone] at hturn
    cases hturn
    rw [← @nil_mem_language same]
    constructor
    · intro hnil
      rw [← hend] at hnil
      exact h.mem_of_rest hnil
    · intro hmem
      obtain ⟨u, hu, hmem⟩ := h.rest_of_mem hmem
      rw [hend, List.suffix_nil] at hu
      rwa [hu] at hmem
  · rw [hnext] at hturn
    cases hturn
  · rw [hnext] at hturn
    cases hturn
  · rw [hretry] at hturn
    cases hback : c.back with
    | some b => simp [retry, hback] at hturn
    | none =>
      simp only [retry, hback] at hturn
      cases hturn
      simp [h.mem_iff hback, hrest]

end Cursor.Follows

/-! ## Whole matches -/

def Leads (same : Char → Char → Bool) (pattern : List Glob) (text : List Char) : Cursor → Cursor → Prop :=
  Relation.ReflTransGen fun c c' => turn same pattern.toArray text.toArray c = .next c'

theorem Leads.valid (h : Leads same pattern text c c') (hc : c.Valid pattern.toArray text.toArray) :
    c'.Valid pattern.toArray text.toArray := by
  induction h with
  | refl => exact hc
  | tail _ hturn ih => exact ih.turn hturn

theorem Leads.follows (h : Leads same pattern text c c') (hc : c.Valid pattern.toArray text.toArray)
    (hfollows : c.Follows same pattern text) : c'.Follows same pattern text := by
  induction h with
  | refl => exact hfollows
  | tail hleads hturn ih => exact ih.turn (Leads.valid hleads hc) hturn

/-- A match comes to an end, and its answer is the one given there. -/
theorem leads_run (same : Char → Char → Bool) (pattern : List Glob) (text : List Char) (c : Cursor)
    (hc : c.Valid pattern.toArray text.toArray) :
    ∃ c', Leads same pattern text c c' ∧
      turn same pattern.toArray text.toArray c' = .done (run same pattern.toArray text.toArray c hc) := by
  fun_induction run same pattern.toArray text.toArray c hc with
  | case1 c hc matched h => exact ⟨c, .refl, h⟩
  | case2 c hc c₁ h ih =>
    obtain ⟨c', hleads, hdone⟩ := ih
    exact ⟨c', .head h hleads, hdone⟩

end

/-! ## How patterns are written -/

/-- The text of a pattern: a backslash makes the next character literal, and stands for itself
where there is none. -/
inductive Spells : List Char → List Glob → Prop
  | nil : Spells [] []
  | star {cs gs} : Spells cs gs → Spells ('*' :: cs) (star :: gs)
  | one {cs gs} : Spells cs gs → Spells ('?' :: cs) (one :: gs)
  | escaped {c cs gs} : Spells cs gs → Spells ('\\' :: c :: cs) (literal c :: gs)
  | backslash : Spells ['\\'] [literal '\\']
  | plain {c cs gs} : c ∉ ['*', '?', '\\'] → Spells cs gs → Spells (c :: cs) (literal c :: gs)

theorem spells_ofChars (cs : List Char) : Spells cs (ofChars cs) := by
  fun_induction ofChars cs with
  | case1 => exact .nil
  | case2 => exact .backslash
  | case3 c cs ih => exact .escaped ih
  | case4 cs ih => exact .star ih
  | case5 cs ih => exact .one ih
  | case6 c cs hlone hescape hstar hone ih =>
    have hbackslash : c ≠ '\\' := by
      intro hc
      cases cs with
      | nil => exact hlone hc rfl
      | cons d cs => exact hescape d cs hc rfl
    exact .plain (by simp [hbackslash]; exact ⟨hstar, hone⟩) ih

theorem Spells.eq_ofChars {cs : List Char} {gs : List Glob} (h : Spells cs gs) : gs = ofChars cs := by
  induction h with
  | nil => rfl
  | star _ ih => rw [ih]; rfl
  | one _ ih => rw [ih]; rfl
  | escaped _ ih => rw [ih]; rfl
  | backslash => rfl
  | plain hc _ ih =>
    simp only [List.mem_cons, List.not_mem_nil, or_false, not_or] at hc
    rw [ih, ofChars]
    all_goals simp [hc]

/-! ## Answers -/

/-- The answer of a match: the match comes to an end there, never leaves the pattern or the
text, and the answer tells whether the text is in the language of the pattern. -/
structure Decides (same : Char → Char → Bool) (pattern : List Glob) (text : List Char) (answer : Bool) : Prop where
  ends : ∃ c, Leads same pattern text .start c ∧ turn same pattern.toArray text.toArray c = .done answer
  inRange : ∀ c, Leads same pattern text .start c → c.used ≤ pattern.length ∧ c.read ≤ text.length
  answer_iff : answer = true ↔ text ∈ language same pattern

theorem accepts_decides (same : Char → Char → Bool) (pattern : List Glob) (text : List Char) :
    Decides same pattern text (accepts same pattern text) := by
  obtain ⟨c, hleads, hdone⟩ := leads_run same pattern text .start Cursor.valid_start
  refine ⟨⟨c, hleads, hdone⟩, ?_, ?_⟩
  · intro c hleads
    have hc := hleads.valid Cursor.valid_start
    exact ⟨hc.used_le, hc.read_le⟩
  · exact (hleads.follows Cursor.valid_start .start).answer hdone

/-- Both comparators answer whether the value is in the language of the pattern that the key
spells. -/
theorem globs_decides (value key : String) :
    (∀ pattern, Spells key.toList pattern ↔ pattern = ofChars key.toList) ∧
    Decides (· == ·) (ofChars key.toList) value.toList (Comparator.octet.globs value key) ∧
    Decides Comparator.sameLetter (ofChars key.toList) value.toList (Comparator.asciiCasemap.globs value key) := by
  refine ⟨?_, accepts_decides _ _ _, accepts_decides _ _ _⟩
  intro pattern
  constructor
  · intro h
    exact h.eq_ofChars
  · intro h
    rw [h]
    exact spells_ofChars key.toList

end MailSieve.Glob
