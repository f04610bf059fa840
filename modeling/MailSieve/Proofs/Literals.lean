import MailSieve.Proofs.Concatenation
import MailSieve.Proofs.Overflow
import MailSieve.Proofs.Spacing

/-!
# Strings and their literals

Where a literal ends is decided before it is read, and the two agree: what is written for a
string is one token, and this token stands for the string again.
-/

namespace MailSieve

/-! ## Lines -/

namespace Text

inductive Lined : List Char → Prop
  | nil : Lined []
  | line {l cs} (hl : '\n' ∉ l) (h : Lined cs) : Lined (l ++ '\n' :: cs)

theorem lined_of_endsLine {cs : List Char} (h : EndsLine cs) : Lined cs := by
  induction cs with
  | nil => exact .nil
  | cons c cs ih =>
    have hcs := ih h.tail
    by_cases hc : c = '\n'
    · subst hc
      exact .line (l := []) List.not_mem_nil hcs
    · have hmem := h.mem_tail hc
      cases hcs with
      | nil => cases hmem
      | @line l cs hl hcs =>
        have hl' : '\n' ∉ c :: l := by simp [Ne.symm hc, hl]
        exact .line hl' hcs

theorem lines_line {l : List Char} (hl : '\n' ∉ l) (cs : List Char) :
    lines (l ++ '\n' :: cs) = (l ++ ['\n']) :: lines cs := by
  induction l with
  | nil => simp [lines]
  | cons c l ih =>
    rw [List.mem_cons, not_or] at hl
    simp [lines, Ne.symm hl.1, ih hl.2]

end Text

/-! ## Strings on lines of their own -/

namespace Literal

def stuffLine (line : List Char) : List Char :=
  if line.head? = some '.' then '.' :: line else line

def stuff (cs : List Char) : List Char :=
  (Text.lines cs).flatMap stuffLine

def dotted (opening closing : LineBreak) (s : String) : String :=
  String.ofList (['t', 'e', 'x', 't', ':'] ++ (opening.chars ++ (stuff s.toList ++ '.' :: closing.chars)))

theorem stuffLine_snoc (l : List Char) : stuffLine (l ++ ['\n']) = stuffLine l ++ ['\n'] := by
  cases l with
  | nil => rfl
  | cons c l =>
    by_cases hc : c = '.'
    · simp [stuffLine, hc]
    · simp [stuffLine, hc]

theorem stuff_line {l : List Char} (hl : '\n' ∉ l) (cs : List Char) :
    stuff (l ++ '\n' :: cs) = stuffLine l ++ '\n' :: stuff cs := by
  rw [stuff, Text.lines_line hl, List.flatMap_cons, stuffLine_snoc, List.append_assoc]
  rfl

theorem not_mem_stuffLine {l : List Char} (hl : '\n' ∉ l) : '\n' ∉ stuffLine l := by
  by_cases hdot : l.head? = some '.'
  · simp [stuffLine, hdot, hl]
  · simp [stuffLine, hdot, hl]

/-- A stuffed line does not end a literal. -/
theorem stuffLine_ne (l tail : List Char) (htail : '.' ∉ tail) : stuffLine l ≠ '.' :: tail := by
  intro h
  cases l with
  | nil => cases h
  | cons c l =>
    by_cases hc : c = '.'
    · simp [stuffLine, hc] at h
      simp [← h] at htail
    · simp [stuffLine, hc] at h

theorem unstuff_stuffLine (l : List Char) : unstuff (stuffLine l ++ ['\n']) = l ++ ['\n'] := by
  cases l with
  | nil => rfl
  | cons c l =>
    by_cases hc : c = '.'
    · simp [stuffLine, hc, unstuff]
    · simp [stuffLine, hc, unstuff]

section
variable {cs : List Char} (closing : LineBreak)

theorem dotted_final : Text.Dotted ('.' :: closing.chars) := by
  cases closing with
  | lf => exact .lineFeed
  | crlf => exact .crlf

theorem dotted_stuff (h : Text.Lined cs) : Text.Dotted (stuff cs ++ '.' :: closing.chars) := by
  induction h with
  | nil => exact dotted_final closing
  | line hl _ ih =>
    rw [stuff_line hl, List.append_assoc, List.cons_append]
    exact .line (not_mem_stuffLine hl) (stuffLine_ne _ _ (by simp)) (stuffLine_ne _ _ (by simp)) ih

theorem lines_final : Text.lines ('.' :: closing.chars) = ['.' :: closing.chars] := by
  cases closing <;> rfl

/-- The lines of a literal are those of its string, stuffed, and the final one. -/
theorem lines_stuff (h : Text.Lined cs) :
    ∃ ls, Text.lines (stuff cs ++ '.' :: closing.chars) = ls ++ ['.' :: closing.chars] ∧
      (ls.map unstuff).flatten = cs := by
  induction h with
  | nil => exact ⟨[], lines_final closing, rfl⟩
  | @line l cs hl _ ih =>
    obtain ⟨ls, hlines, hcs⟩ := ih
    refine ⟨(stuffLine l ++ ['\n']) :: ls, ?_, ?_⟩
    · rw [stuff_line hl, List.append_assoc, List.cons_append, Text.lines_line (not_mem_stuffLine hl), hlines]
      rfl
    · simp [unstuff_stuffLine, hcs]

theorem isFinalLine_final : isFinalLine ('.' :: closing.chars) = true := by
  cases closing <;> rfl

theorem multilineText_dotted (opening : LineBreak) (h : Text.Lined cs) :
    multilineText (['t', 'e', 'x', 't', ':'] ++ (opening.chars ++ (stuff cs ++ '.' :: closing.chars))) = cs := by
  obtain ⟨ls, hlines, hcs⟩ := lines_stuff closing h
  have hbody : ((['t', 'e', 'x', 't', ':'] ++ (opening.chars ++ (stuff cs ++ '.' :: closing.chars))).dropWhile
      (· != '\n')).drop 1 = stuff cs ++ '.' :: closing.chars := by
    cases opening <;> rfl
  rw [multilineText, hbody, hlines]
  simp [isFinalLine_final, hcs]

end

theorem written_dotted (opening closing : LineBreak) {s : String} (h : Text.EndsLine s.toList) :
    (Token.multiline (dotted opening closing s)).Written (dotted opening closing s).toList := by
  have hdotted := dotted_stuff closing (Text.lined_of_endsLine h)
  have hkeyword : Text.lowerChars ['t', 'e', 'x', 't', ':'] = ['t', 'e', 'x', 't', ':'] := rfl
  rw [dotted, String.toList_ofList]
  cases opening with
  | lf => exact .multiline (l := []) hkeyword (by simp) hdotted
  | crlf => exact .multiline (l := ['\r']) hkeyword (by simp) hdotted

theorem string_dotted (opening closing : LineBreak) {s : String} (h : Text.EndsLine s.toList) :
    string (dotted opening closing s) = .ok s := by
  have htext := multilineText_dotted closing opening (Text.lined_of_endsLine h)
  rw [dotted, string, String.toList_ofList, htext, String.ofList_toList]
  rfl

/-! ## Quoted strings -/

theorem escaped_escape (cs : List Char) : Text.Escaped (Action.escape cs) := by
  induction cs with
  | nil => exact .nil
  | cons c cs ih =>
    by_cases hc : c = '\\' ∨ c = '"'
    · rw [Action.escape, if_pos hc]
      exact .pair ih
    · rw [Action.escape, if_neg hc]
      rw [not_or] at hc
      exact .plain hc.2 hc.1 ih

theorem written_quote (s : String) : (Token.quoted (Action.quote s)).Written (Action.quote s).toList := by
  rw [Action.quote, String.toList_ofList]
  exact .quoted (escaped_escape s.toList)

/-! ## Literals of any text -/

theorem string_of_tokenize {text : String} {tokens : List PlacedToken} (h : tokenize text = .ok tokens)
    {t : PlacedToken} (ht : t ∈ tokens) {literal : String}
    (hliteral : t.token = .quoted literal ∨ t.token = .multiline literal) : ∃ s, string literal = .ok s := by
  obtain ⟨lexeme, hlexeme⟩ := Script.written_of_tokenize h t ht
  rcases hliteral with hliteral | hliteral
  · rw [hliteral] at hlexeme
    exact hlexeme.string_of_quoted
  · rw [hliteral] at hlexeme
    exact hlexeme.string_of_multiline

/-- Both ways to write a string give one token that stands for it, and every token of a text
that is a string stands for one. -/
theorem string_literals :
    (∀ s, tokenize (Action.quote s) = .ok [⟨.quoted (Action.quote s), .start⟩] ∧
      string (Action.quote s) = .ok s) ∧
    (∀ opening closing s, Text.EndsLine s.toList →
      tokenize (dotted opening closing s) = .ok [⟨.multiline (dotted opening closing s), .start⟩] ∧
        string (dotted opening closing s) = .ok s) ∧
    (∀ text tokens, tokenize text = .ok tokens → ∀ t ∈ tokens, ∀ literal,
      t.token = .quoted literal ∨ t.token = .multiline literal → ∃ s, string literal = .ok s) := by
  refine ⟨?_, ?_, ?_⟩
  · intro s
    have htoken := (written_quote s).tokenize
    rw [String.ofList_toList] at htoken
    exact ⟨htoken, string_quote s⟩
  · intro opening closing s hs
    have htoken := (written_dotted opening closing hs).tokenize
    rw [String.ofList_toList] at htoken
    exact ⟨htoken, string_dotted opening closing hs⟩
  · intro text tokens htext t ht literal
    exact string_of_tokenize htext ht

def dots : String := ".\n..a\r\n"

theorem string_literals_dots :
    dotted .crlf .lf dots = "text:\r\n..\n...a\r\n.\n" ∧
      tokenize "text:\r\n..\n...a\r\n.\n" = .ok [⟨.multiline "text:\r\n..\n...a\r\n.\n", .start⟩] ∧
      string "text:\r\n..\n...a\r\n.\n" = .ok dots := by
  have hdotted : dotted .crlf .lf dots = "text:\r\n..\n...a\r\n.\n" := by decide
  have hends : Text.EndsLine dots.toList := .inr (by decide)
  have hliteral := string_literals.2.1 .crlf .lf dots hends
  rw [hdotted] at hliteral
  exact ⟨hdotted, hliteral⟩

end Literal

end MailSieve
