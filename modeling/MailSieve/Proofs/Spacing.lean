import Mathlib
import MailSieve.Text.Blank
import MailSieve.Text.Search

/-!
# White space at the ends of texts, lines and escapes

Trimming takes white space from both ends of a text, so it leaves a text alone that has none
there. A text is cut at a separator wherever it stands, so what precedes one is cut apart from
what follows it. A text is escaped by backslashes before the characters that would mean
something where it is to stand.
-/

namespace MailSieve

inductive LineBreak
  | lf
  | crlf
deriving DecidableEq

def LineBreak.chars : LineBreak → List Char
  | lf => ['\n']
  | crlf => ['\r', '\n']

namespace Text

/-! ## Trimming -/

section
variable {p : α → Bool} {xs ys : List α}

theorem dropEndWhile_append_of_pos (h : ∀ y ∈ ys, p y = true) : dropEndWhile p (xs ++ ys) = dropEndWhile p xs := by
  unfold dropEndWhile
  rw [List.reverse_append, List.dropWhile_append_of_pos (by simpa using h)]

theorem eq_false_of_mem_head?_dropWhile {x : α} (h : x ∈ (xs.dropWhile p).head?) : p x = false := by
  have hnot := List.head?_dropWhile_not p xs
  rw [Option.mem_def.1 h] at hnot
  exact hnot

theorem dropWhile_eq_self (h : ∀ x ∈ xs.head?, p x = false) : xs.dropWhile p = xs := by
  cases xs with
  | nil => rfl
  | cons x xs => simp [h x rfl]

end

structure Trimmed (cs : List Char) : Prop where
  first : ∀ c ∈ cs.head?, isBlank c = false
  last : ∀ c ∈ cs.getLast?, isBlank c = false

section
variable {cs blank : List Char}

theorem Trimmed.of_forall (h : ∀ c ∈ cs, isBlank c = false) : Trimmed cs where
  first c hc := h c (List.mem_of_mem_head? hc)
  last c hc := h c (List.mem_of_mem_getLast? hc)

theorem trim_blank_append (h : ∀ c ∈ blank, isBlank c = true) (cs : List Char) : trim (blank ++ cs) = trim cs := by
  unfold trim
  rw [List.dropWhile_append_of_pos h]

theorem trim_append_blank (cs : List Char) (h : ∀ c ∈ blank, isBlank c = true) : trim (cs ++ blank) = trim cs := by
  unfold trim
  rw [List.dropWhile_append]
  by_cases hcs : (cs.dropWhile isBlank).isEmpty = true
  · rw [if_pos hcs, List.dropWhile_eq_nil_iff.2 h, List.isEmpty_iff.1 hcs]
  · rw [if_neg hcs, dropEndWhile_append_of_pos h]

theorem trim_blank (h : ∀ c ∈ blank, isBlank c = true) : trim blank = [] := by
  exact trim_append_blank [] h

theorem Trimmed.trim_eq (h : Trimmed cs) : trim cs = cs := by
  have hlast : ∀ c ∈ cs.reverse.head?, isBlank c = false := by simpa using h.last
  unfold trim dropEndWhile
  rw [dropWhile_eq_self h.first, dropWhile_eq_self hlast, List.reverse_reverse]

theorem trim_padded {before after : List Char} (hbefore : ∀ c ∈ before, isBlank c = true) (hcs : Trimmed cs)
    (hafter : ∀ c ∈ after, isBlank c = true) : trim (before ++ cs ++ after) = cs := by
  rw [trim_append_blank _ hafter, trim_blank_append hbefore, hcs.trim_eq]

theorem trim_isPrefix (cs : List Char) : trim cs <+: cs.dropWhile isBlank :=
  List.rdropWhile_prefix isBlank (cs.dropWhile isBlank)

theorem mem_of_mem_trim {c : Char} (h : c ∈ trim cs) : c ∈ cs :=
  (List.dropWhile_suffix isBlank).mem ((trim_isPrefix cs).mem h)

theorem trimmed_trim (cs : List Char) : Trimmed (trim cs) := by
  constructor
  · intro c hc
    obtain ⟨after, hafter⟩ := trim_isPrefix cs
    have hhead : c ∈ (cs.dropWhile isBlank).head? := by
      rw [← hafter, List.head?_append, Option.mem_def.1 hc]
      rfl
    exact eq_false_of_mem_head?_dropWhile hhead
  · intro c hc
    unfold trim dropEndWhile at hc
    rw [List.getLast?_reverse] at hc
    exact eq_false_of_mem_head?_dropWhile hc

end

/-! ## Cutting at a separator -/

section
variable [BEq α] {sep : α} {xs : List α}

theorem splitAt_eq_splitOn (sep : α) (xs : List α) : splitAt sep xs = xs.splitOn sep := by
  induction xs with
  | nil => rw [splitAt, List.splitOn_nil]
  | cons x xs ih =>
    rw [splitAt, List.splitOn_cons_eq_if_modifyHead, ih]
    cases hpieces : xs.splitOn sep with
    | nil => exact absurd hpieces (List.splitOn_ne_nil sep xs)
    | cons piece pieces => rfl

theorem splitAt_append_cons [ReflBEq α] (xs ys : List α) :
    splitAt sep (xs ++ sep :: ys) = splitAt sep xs ++ splitAt sep ys := by
  simp only [splitAt_eq_splitOn, List.splitOn_append_cons_self]

theorem exists_splitAt_cons [LawfulBEq α] {x : α} (hx : x ≠ sep) (xs : List α) :
    ∃ piece pieces, splitAt sep xs = piece :: pieces ∧ splitAt sep (x :: xs) = (x :: piece) :: pieces := by
  cases hpieces : splitAt sep xs with
  | nil =>
    rw [splitAt_eq_splitOn] at hpieces
    exact absurd hpieces (List.splitOn_ne_nil sep xs)
  | cons piece pieces => exact ⟨piece, pieces, rfl, by simp [splitAt, hx, hpieces]⟩

theorem splitAt_of_not_mem [LawfulBEq α] (h : sep ∉ xs) : splitAt sep xs = [xs] := by
  rw [splitAt_eq_splitOn, List.splitOn_eq_singleton h]

theorem not_mem_of_mem_splitAt [LawfulBEq α] {piece : List α} (h : piece ∈ splitAt sep xs) : sep ∉ piece := by
  induction xs generalizing piece with
  | nil =>
    rw [splitAt, List.mem_singleton] at h
    simp [h]
  | cons x xs ih =>
    by_cases hx : x = sep
    · subst hx
      rw [splitAt, beq_self_eq_true, if_pos rfl, List.mem_cons] at h
      rcases h with rfl | h
      · exact List.not_mem_nil
      · exact ih h
    · obtain ⟨first, pieces, hxs, hcons⟩ := exists_splitAt_cons hx xs
      rw [hxs] at ih
      rw [hcons, List.mem_cons] at h
      rcases h with rfl | h
      · simp [Ne.symm hx, ih List.mem_cons_self]
      · exact ih (List.mem_cons_of_mem _ h)

end

/-! ## Escapes -/

def escape (special : List Char) : List Char → List Char
  | [] => []
  | c :: cs => if c ∈ special then '\\' :: c :: escape special cs else c :: escape special cs

def escaped (special : List Char) (text : String) : String :=
  String.ofList (escape special text.toList)

theorem escape_cons_of_mem {special : List Char} {c : Char} (h : c ∈ special) (cs : List Char) :
    escape special (c :: cs) = '\\' :: c :: escape special cs := if_pos h

theorem escape_cons_of_not_mem {special : List Char} {c : Char} (h : c ∉ special) (cs : List Char) :
    escape special (c :: cs) = c :: escape special cs := if_neg h

end Text

end MailSieve
