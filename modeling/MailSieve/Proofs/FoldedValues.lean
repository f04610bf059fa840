import MailSieve.Mail.Message
import MailSieve.Proofs.Spacing

/-!
# Folded header values

A header value may go on over several lines. Its text is known by the lines that hold more than
white space, so it does not matter where it is folded, which line breaks are used or what white
space stands around them, and a value on one line is its own text.
-/

namespace MailSieve

/-! ## Solid lines -/

/-- A text on one line, between characters that are not white space. -/
structure Solid (cs : List Char) : Prop where
  ne_nil : cs ≠ []
  oneLine : '\n' ∉ cs
  trimmed : Text.Trimmed cs

/-- The lines of a text without the white space around them, as far as they hold more. -/
def solidLines (cs : List Char) : List (List Char) :=
  ((Text.splitAt '\n' cs).map Text.trim).filter (! ·.isEmpty)

section
variable {cs line blank : List Char}

theorem solidLines_append_cons (before after : List Char) :
    solidLines (before ++ '\n' :: after) = solidLines before ++ solidLines after := by
  unfold solidLines
  rw [Text.splitAt_append_cons, List.map_append, List.filter_append]

theorem solidLines_of_not_mem (h : '\n' ∉ line) : solidLines line = [Text.trim line].filter (! ·.isEmpty) := by
  unfold solidLines
  rw [Text.splitAt_of_not_mem h, List.map_singleton]

theorem Solid.solidLines_eq (h : Solid line) : solidLines line = [line] := by
  rw [solidLines_of_not_mem h.oneLine, h.trimmed.trim_eq]
  simp [h.ne_nil]

theorem solid_of_mem_solidLines (h : line ∈ solidLines cs) : Solid line := by
  obtain ⟨hmem, hne⟩ := List.mem_filter.1 h
  obtain ⟨piece, hpiece, rfl⟩ := List.mem_map.1 hmem
  exact {
    ne_nil := by simpa using hne
    oneLine := fun hfeed => Text.not_mem_of_mem_splitAt hpiece (Text.mem_of_mem_trim hfeed)
    trimmed := Text.trimmed_trim piece }

theorem solidLines_cons_blank {c : Char} (hc : Text.isBlank c = true) (cs : List Char) :
    solidLines (c :: cs) = solidLines cs := by
  by_cases hfeed : c = '\n'
  · subst hfeed
    exact solidLines_append_cons [] cs
  · obtain ⟨piece, pieces, hcs, hcons⟩ := Text.exists_splitAt_cons hfeed cs
    have htrim : Text.trim (c :: piece) = Text.trim piece :=
      Text.trim_blank_append (List.forall_mem_singleton.2 hc) piece
    simp only [solidLines, hcs, hcons, List.map_cons, htrim]

theorem solidLines_blank_append (h : ∀ c ∈ blank, Text.isBlank c = true) (cs : List Char) :
    solidLines (blank ++ cs) = solidLines cs := by
  induction blank with
  | nil => rfl
  | cons c blank ih =>
    rw [List.forall_mem_cons] at h
    rw [List.cons_append, solidLines_cons_blank h.1, ih h.2]

theorem solidLines_blank (h : ∀ c ∈ blank, Text.isBlank c = true) : solidLines blank = [] := by
  rw [← List.append_nil blank, solidLines_blank_append h]
  rfl

/-- White space that goes on after a line adds nothing to it. -/
theorem solidLines_append_blank (hline : '\n' ∉ line) (h : ∀ c ∈ blank, Text.isBlank c = true) :
    solidLines (line ++ blank) = solidLines line := by
  have hsame : ∀ spaces, '\n' ∉ spaces → (∀ c ∈ spaces, Text.isBlank c = true) →
      solidLines (line ++ spaces) = solidLines line := by
    intro spaces hspaces hblank
    have hone : '\n' ∉ line ++ spaces := by simp [hline, hspaces]
    rw [solidLines_of_not_mem hone, solidLines_of_not_mem hline, Text.trim_append_blank _ hblank]
  by_cases hfeed : '\n' ∈ blank
  · -- only what stands before the first line feed is on the same line
    obtain ⟨before, after, rfl, hbefore⟩ := List.eq_append_cons_of_mem hfeed
    rw [List.forall_mem_append, List.forall_mem_cons] at h
    rw [← List.append_assoc, solidLines_append_cons, hsame before hbefore h.1, solidLines_blank h.2.2,
      List.append_nil]
  · exact hsame blank hfeed h

/-- A carriage return before a line feed is white space at the end of a line. -/
theorem solidLines_lineFeeds (hline : '\n' ∉ line) (cs : List Char) :
    solidLines (line ++ unfoldValue.lineFeeds cs) = solidLines (line ++ cs) := by
  have hnil : '\n' ∉ ([] : List Char) := List.not_mem_nil
  -- `line` is what has been read of the line, which the return may turn out to follow
  fun_induction unfoldValue.lineFeeds cs generalizing line with
  | case1 cs ih =>
    have hreturn : solidLines (line ++ ['\r']) = solidLines line :=
      solidLines_append_blank hline (List.forall_mem_singleton.2 rfl)
    rw [solidLines_append_cons, List.append_cons line '\r', solidLines_append_cons, hreturn]
    exact congrArg _ (ih hnil)
  | case2 c cs _ ih =>
    by_cases hfeed : c = '\n'
    · subst hfeed
      rw [solidLines_append_cons, solidLines_append_cons]
      exact congrArg _ (ih hnil)
    · have hline' : '\n' ∉ line ++ [c] := by simp [hline, Ne.symm hfeed]
      rw [List.append_cons, List.append_cons line c cs, ih hline']
  | case3 => rfl

end

theorem unfoldValue_eq (value : List Char) : unfoldValue value = [' '].intercalate (solidLines value) := by
  have hnil : '\n' ∉ ([] : List Char) := List.not_mem_nil
  have hlines : solidLines (unfoldValue.lineFeeds value) = solidLines value := solidLines_lineFeeds hnil value
  rw [← hlines]
  rfl

theorem Solid.spaced {cs ds : List Char} (hcs : Solid cs) (hds : Solid ds) : Solid (cs ++ ' ' :: ds) := by
  constructor
  · simp
  · simp [hcs.oneLine, hds.oneLine]
  · constructor
    · intro c hc
      rw [List.head?_append_of_ne_nil _ hcs.ne_nil] at hc
      exact hcs.trimmed.first c hc
    · intro c hc
      rw [List.append_cons, List.getLast?_append_of_ne_nil _ hds.ne_nil] at hc
      exact hds.trimmed.last c hc

theorem solid_intercalate {lines : List (List Char)} (hne : lines ≠ []) (h : ∀ l ∈ lines, Solid l) :
    Solid ([' '].intercalate lines) := by
  induction lines with
  | nil => exact absurd rfl hne
  | cons line lines ih =>
    rw [List.forall_mem_cons] at h
    cases lines with
    | nil => simpa using h.1
    | cons next lines =>
      rw [List.intercalate_cons_cons, List.append_assoc]
      exact h.1.spaced (ih (List.cons_ne_nil _ _) h.2)

theorem Solid.unfoldValue_eq {value : List Char} (h : Solid value) : unfoldValue value = value := by
  rw [MailSieve.unfoldValue_eq, h.solidLines_eq, List.intercalate_singleton]

theorem solid_unfoldValue (value : List Char) : unfoldValue value = [] ∨ Solid (unfoldValue value) := by
  rw [unfoldValue_eq]
  by_cases hlines : solidLines value = []
  · exact .inl (by rw [hlines]; rfl)
  · exact .inr (solid_intercalate hlines fun _ => solid_of_mem_solidLines)

/-! ## Values over several lines -/

structure Blank where
  text : List Char
  blank : ∀ c ∈ text, Text.isBlank c = true

/-- A line break and the white space around it, in which more lines may end. -/
structure Fold where
  before : Blank
  lineBreak : LineBreak
  after : Blank

def Fold.text (f : Fold) : List Char :=
  f.before.text ++ f.lineBreak.chars ++ f.after.text

structure Segment where
  text : List Char
  solid : Solid text

/-- Segments with folds between them, and white space at both ends. -/
structure FoldedValue where
  margin : Blank
  first : Segment
  rest : List (Fold × Segment)
  trail : Blank

namespace FoldedValue

def segments (v : FoldedValue) : List (List Char) :=
  v.first.text :: v.rest.map fun r => r.2.text

def text (v : FoldedValue) : List Char :=
  v.margin.text ++ (v.first.text ++ v.rest.flatMap (fun r => r.1.text ++ r.2.text)) ++ v.trail.text

end FoldedValue

/-- Up to its line feed a fold is white space, whichever line break it has. -/
theorem Fold.text_eq (f : Fold) :
    ∃ before, (∀ c ∈ before, Text.isBlank c = true) ∧ f.text = before ++ '\n' :: f.after.text := by
  unfold text
  cases f.lineBreak with
  | lf => exact ⟨f.before.text, f.before.blank, by simp [LineBreak.chars]⟩
  | crlf =>
    refine ⟨f.before.text ++ ['\r'], ?_, by simp [LineBreak.chars]⟩
    rw [List.forall_mem_append, List.forall_mem_singleton]
    exact ⟨f.before.blank, rfl⟩

namespace Segment

theorem solidLines_last (s : Segment) {blank : List Char} (h : ∀ c ∈ blank, Text.isBlank c = true) :
    solidLines (s.text ++ blank) = [s.text] := by
  rw [solidLines_append_blank s.solid.oneLine h, s.solid.solidLines_eq]

theorem solidLines_fold (s : Segment) (f : Fold) (rest : List Char) :
    solidLines (s.text ++ (f.text ++ rest)) = s.text :: solidLines rest := by
  obtain ⟨before, hbefore, hf⟩ := f.text_eq
  calc
    _ = solidLines ((s.text ++ before) ++ '\n' :: (f.after.text ++ rest)) := by
      rw [hf]
      simp only [List.append_assoc, List.cons_append]
    _ = [s.text] ++ solidLines rest := by
      rw [solidLines_append_cons, s.solidLines_last hbefore, solidLines_blank_append f.after.blank]

theorem solidLines_rest (s : Segment) (rest : List (Fold × Segment)) (trail : Blank) :
    solidLines (s.text ++ rest.flatMap (fun r => r.1.text ++ r.2.text) ++ trail.text) =
      s.text :: rest.map fun r => r.2.text := by
  induction rest generalizing s with
  | nil =>
    rw [List.flatMap_nil, List.append_nil]
    exact s.solidLines_last trail.blank
  | cons r rest ih =>
    rw [List.flatMap_cons, List.append_assoc, List.append_assoc, List.append_assoc, solidLines_fold,
      ← List.append_assoc, ih, List.map_cons]

end Segment

theorem FoldedValue.solidLines_text (v : FoldedValue) : solidLines v.text = v.segments := by
  unfold text
  rw [List.append_assoc, solidLines_blank_append v.margin.blank]
  exact v.first.solidLines_rest v.rest v.trail

/-- Unfolding takes every folding of a value back. What it gives is on one line, neither begins nor
ends with white space, and is left alone by unfolding. -/
theorem unfoldValue_normalizes :
    (∀ v : FoldedValue, unfoldValue v.text = [' '].intercalate v.segments) ∧
    ∀ value, '\n' ∉ unfoldValue value ∧ Text.Trimmed (unfoldValue value) ∧
      unfoldValue (unfoldValue value) = unfoldValue value := by
  constructor
  · intro v
    rw [unfoldValue_eq, v.solidLines_text]
  · intro value
    rcases solid_unfoldValue value with hnil | hsolid
    · rw [hnil]
      exact ⟨List.not_mem_nil, .of_forall (by simp), rfl⟩
    · exact ⟨hsolid.oneLine, hsolid.trimmed, hsolid.unfoldValue_eq⟩

def quarterly : FoldedValue where
  margin := ⟨[' '], by simp; rfl⟩
  first := ⟨"Quarterly".toList, ⟨by simp, by simp, by simp; rfl, by simp; rfl⟩⟩
  rest := [(⟨⟨['\t'], by simp; rfl⟩, .crlf, ⟨['\t', '\n', ' '], by simp; decide⟩⟩,
    ⟨"re\rport".toList, ⟨by simp, by simp, by simp; rfl, by simp; rfl⟩⟩)]
  trail := ⟨['\r', '\n'], by simp; decide⟩

example : String.ofList quarterly.text = " Quarterly\t\r\n\t\n re\rport\r\n" ∧
    String.ofList (unfoldValue quarterly.text) = "Quarterly re\rport" := by
  decide

end MailSieve
