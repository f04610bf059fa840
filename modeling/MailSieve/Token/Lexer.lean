import MailSieve.Error
import MailSieve.Text.Ascii
import MailSieve.Text.Blank

/-!
# From text to tokens

`split` cuts one lexeme off the front of a text; what token it is depends only
on the lexeme and its kind. `tokenizeFrom` skips layout, cuts, moves the
position over the lexeme and goes on with the rest, which is shorter.
-/

namespace MailSieve

inductive LexemeKind
  | tag
  | identifier
  | quoted
  | multiline
  | number
  | comment
  | blockComment
  | punct (p : Punct)
deriving DecidableEq

def Token.ofLexeme (kind : LexemeKind) (lexeme : List Char) : Token :=
  match kind with
  | .tag => .tag (String.ofList (Text.lowerChars lexeme))
  | .identifier => .identifier (String.ofList lexeme)
  | .quoted => .quoted (String.ofList lexeme)
  | .multiline => .multiline (String.ofList lexeme)
  | .number => .number (String.ofList lexeme)
  | .comment => .comment (String.ofList (Text.trim (lexeme.drop 1)))
  | .blockComment => .blockComment (String.ofList (Text.trim ((lexeme.drop 2).dropLast.dropLast)))
  | .punct p => .punct p

structure Cut where
  kind : LexemeKind
  lexeme : List Char
  rest : List Char

namespace Cut

def cons (c : Char) (cut : List Char × List Char) : List Char × List Char :=
  (c :: cut.1, cut.2)

def blockCommentEnd : List Char → Option (List Char × List Char)
  | [] => none
  | '*' :: '/' :: cs => some (['*', '/'], cs)
  | c :: cs => (blockCommentEnd cs).map (cons c)

def quotedEnd : List Char → Option (List Char × List Char)
  | [] => none
  | '"' :: cs => some (['"'], cs)
  | '\\' :: c :: cs => (quotedEnd cs).map fun cut => cons '\\' (cons c cut)
  | c :: cs => (quotedEnd cs).map (cons c)

/-- Cuts after the first line that is a single dot. The flag tells whether the
text begins at the start of a line. -/
def multilineEnd : Bool → List Char → Option (List Char × List Char)
  | _, [] => none
  | true, ['.'] => some (['.'], [])
  | true, '.' :: '\n' :: cs => some (['.', '\n'], cs)
  | true, '.' :: '\r' :: '\n' :: cs => some (['.', '\r', '\n'], cs)
  | _, c :: cs => (multilineEnd (c == '\n') cs).map (cons c)

def longest (p : Char → Bool) (cs : List Char) : List Char × List Char :=
  (cs.takeWhile p, cs.dropWhile p)

def isQuantifier (c : Char) : Bool :=
  c == 'K' || c == 'k' || c == 'M' || c == 'm' || c == 'G' || c == 'g'

def numberEnd (cs : List Char) : List Char × List Char :=
  match cs.dropWhile Char.isDigit with
  | [] => (cs.takeWhile Char.isDigit, [])
  | q :: rest =>
    if isQuantifier q then (cs.takeWhile Char.isDigit ++ [q], rest)
    else (cs.takeWhile Char.isDigit, q :: rest)

def multilineKeyword : List Char := ['t', 'e', 'x', 't', ':']

def opensMultiline (cs : List Char) : Bool :=
  Text.lowerChars (cs.take 5) == multilineKeyword

def found (kind : LexemeKind) (opening : List Char) (cut : List Char × List Char) : Cut :=
  ⟨kind, opening ++ cut.1, cut.2⟩

def split (c : Char) (cs : List Char) : Except LexFault Cut :=
  match Punct.ofChar? c with
  | some p => .ok (found (.punct p) [c] ([], cs))
  | none =>
    if c = '#' then
      .ok (found .comment [c] (longest (· != '\n') cs))
    else if c = '/' then
      match cs with
      | '*' :: rest =>
        match blockCommentEnd rest with
        | some cut => .ok (found .blockComment ['/', '*'] cut)
        | none => .error .openBlockComment
      | _ => .error (.strayChar c)
    else if c = '"' then
      match quotedEnd cs with
      | some cut => .ok (found .quoted [c] cut)
      | none => .error .openString
    else if opensMultiline (c :: cs) then
      match multilineEnd false (cs.drop 4) with
      | some cut => .ok (found .multiline ((c :: cs).take 5) cut)
      | none => .error .openMultiline
    else if c = ':' then
      match longest Text.isWord cs with
      | ([], _) => .error .bareColon
      | cut => .ok (found .tag [c] cut)
    else if c.isDigit then
      .ok (found .number [] (numberEnd (c :: cs)))
    else if c.isAlpha || c == '_' then
      .ok (found .identifier [c] (longest Text.isWord cs))
    else .error (.strayChar c)

/-- What `split` cuts off, by the kind of lexeme. -/
inductive Rule : Char → List Char → Cut → Prop
  | punct {p cs} : Rule p.toChar cs (found (.punct p) [p.toChar] ([], cs))
  | comment {cs} : Rule '#' cs (found .comment ['#'] (longest (· != '\n') cs))
  | blockComment {cs cut} (hend : blockCommentEnd cs = some cut) :
      Rule '/' ('*' :: cs) (found .blockComment ['/', '*'] cut)
  | quoted {cs cut} (hend : quotedEnd cs = some cut) : Rule '"' cs (found .quoted ['"'] cut)
  | multiline {c cs cut} (hopens : opensMultiline (c :: cs) = true)
      (hend : multilineEnd false (cs.drop 4) = some cut) :
      Rule c cs (found .multiline ((c :: cs).take 5) cut)
  | tag {cs} (hne : (longest Text.isWord cs).1 ≠ []) : Rule ':' cs (found .tag [':'] (longest Text.isWord cs))
  | number {c cs} (hdigit : c.isDigit = true) : Rule c cs (found .number [] (numberEnd (c :: cs)))
  | identifier {c cs} (hletter : (c.isAlpha || c == '_') = true) (hopens : opensMultiline (c :: cs) = false) :
      Rule c cs (found .identifier [c] (longest Text.isWord cs))

theorem rule_of_split {c : Char} {cs : List Char} {cut : Cut} (h : split c cs = .ok cut) : Rule c cs cut := by
  revert h
  fun_cases split c cs with
  | case1 cs p hp =>
    rintro ⟨⟩
    obtain rfl := Punct.ofChar?_eq_some.1 hp
    exact .punct
  | case2 cs _ hc =>
    rintro ⟨⟩
    exact hc ▸ .comment
  | case3 _ _ hc rest ending hend =>
    rintro ⟨⟩
    exact hc ▸ .blockComment hend
  | case6 cs _ _ _ hc ending hend =>
    rintro ⟨⟩
    exact hc ▸ .quoted hend
  | case8 cs _ _ _ _ hopens ending hend =>
    rintro ⟨⟩
    exact .multiline hopens hend
  | case11 cs _ _ _ _ _ hc hne =>
    rintro ⟨⟩
    exact hc ▸ .tag fun hnil => hne _ (Prod.ext hnil rfl)
  | case12 cs _ _ _ _ _ _ hdigit =>
    rintro ⟨⟩
    exact .number hdigit
  | case13 cs _ _ _ _ hopens _ _ hletter =>
    rintro ⟨⟩
    exact .identifier hletter (Bool.eq_false_iff.2 hopens)
  | case4 | case5 | case7 | case9 | case10 | case14 => exact nofun

/-! ## A cut loses nothing -/

theorem blockCommentEnd_append {cs : List Char} {cut : List Char × List Char}
    (h : blockCommentEnd cs = some cut) : cut.1 ++ cut.2 = cs := by
  fun_induction blockCommentEnd cs generalizing cut with
  | case1 => simp at h
  | case2 cs => cases h; rfl
  | case3 c cs _ ih =>
    obtain ⟨tail, ht, rfl⟩ := Option.map_eq_some_iff.1 h
    simp [cons, ih ht]

theorem quotedEnd_append {cs : List Char} {cut : List Char × List Char}
    (h : quotedEnd cs = some cut) : cut.1 ++ cut.2 = cs := by
  fun_induction quotedEnd cs generalizing cut with
  | case1 => simp at h
  | case2 cs => cases h; rfl
  | case3 c cs ih =>
    obtain ⟨tail, ht, rfl⟩ := Option.map_eq_some_iff.1 h
    simp [cons, ih ht]
  | case4 c cs _ _ ih =>
    obtain ⟨tail, ht, rfl⟩ := Option.map_eq_some_iff.1 h
    simp [cons, ih ht]

theorem multilineEnd_append {b : Bool} {cs : List Char} {cut : List Char × List Char}
    (h : multilineEnd b cs = some cut) : cut.1 ++ cut.2 = cs := by
  fun_induction multilineEnd b cs generalizing cut with
  | case1 => simp at h
  | case2 => cases h; rfl
  | case3 cs => cases h; rfl
  | case4 cs => cases h; rfl
  | case5 b c cs _ _ _ ih =>
    obtain ⟨tail, ht, rfl⟩ := Option.map_eq_some_iff.1 h
    simp [cons, ih ht]

theorem longest_append (p : Char → Bool) (cs : List Char) :
    (longest p cs).1 ++ (longest p cs).2 = cs :=
  List.takeWhile_append_dropWhile

theorem numberEnd_append (cs : List Char) : (numberEnd cs).1 ++ (numberEnd cs).2 = cs := by
  have h : cs.takeWhile Char.isDigit ++ cs.dropWhile Char.isDigit = cs :=
    List.takeWhile_append_dropWhile
  unfold numberEnd
  split
  · next hd => simpa [hd] using h
  · next q rest hd =>
    split <;> simpa [hd] using h

theorem numberEnd_ne_nil {c : Char} (h : c.isDigit = true) (cs : List Char) :
    (numberEnd (c :: cs)).1 ≠ [] := by
  unfold numberEnd
  split
  · simp [h]
  · split <;> simp [h]

theorem split_append {c : Char} {cs : List Char} {cut : Cut} (h : split c cs = .ok cut) :
    cut.lexeme ++ cut.rest = c :: cs := by
  cases rule_of_split h with
  | punct => rfl
  | comment => exact congrArg ('#' :: ·) (longest_append _ cs)
  | blockComment hend => exact congrArg ('/' :: '*' :: ·) (blockCommentEnd_append hend)
  | quoted hend => exact congrArg ('"' :: ·) (quotedEnd_append hend)
  | multiline _ hend =>
    have hlines := multilineEnd_append hend
    simp only [found, List.append_assoc, hlines]
    exact List.take_append_drop 5 (c :: cs)
  | tag => exact congrArg (':' :: ·) (longest_append _ cs)
  | number => exact numberEnd_append (c :: cs)
  | identifier => exact congrArg (c :: ·) (longest_append _ cs)

theorem split_lexeme_ne_nil {c : Char} {cs : List Char} {cut : Cut} (h : split c cs = .ok cut) :
    cut.lexeme ≠ [] := by
  cases rule_of_split h with
  | number hdigit => exact numberEnd_ne_nil hdigit cs
  | _ => exact List.cons_ne_nil _ _

theorem split_rest_length {c : Char} {cs : List Char} {cut : Cut} (h : split c cs = .ok cut) :
    cut.rest.length < (c :: cs).length := by
  have happ := congrArg List.length (split_append h)
  have hpos := List.length_pos_iff.2 (split_lexeme_ne_nil h)
  simp only [List.length_append] at happ
  omega

end Cut

def tokenizeFrom (p : Position) (cs : List Char) : Except Error (List PlacedToken) :=
  match cs with
  | [] => .ok []
  | c :: cs =>
    if Text.isLayout c then tokenizeFrom (p.next c) cs
    else
      match _h : Cut.split c cs with
      | .error fault => .error ((Fault.lexical fault).errorAt p)
      | .ok cut =>
        match tokenizeFrom (p.advance cut.lexeme) cut.rest with
        | .error e => .error e
        | .ok tokens => .ok (⟨Token.ofLexeme cut.kind cut.lexeme, p⟩ :: tokens)
termination_by cs.length
decreasing_by
  · simp
  · exact Cut.split_rest_length (by assumption)

section
variable {p : Position} {c : Char} {cs : List Char}

theorem tokenizeFrom_layout (hc : Text.isLayout c = true) :
    tokenizeFrom p (c :: cs) = tokenizeFrom (p.next c) cs := by
  rw [tokenizeFrom, if_pos hc]

theorem tokenizeFrom_fault {fault : LexFault} (hc : Text.isLayout c = false) (h : Cut.split c cs = .error fault) :
    tokenizeFrom p (c :: cs) = .error ((Fault.lexical fault).errorAt p) := by
  rw [tokenizeFrom, if_neg (by simp [hc])]
  split
  · next herr =>
    rw [h] at herr
    cases herr
    rfl
  · next hok => rw [h] at hok; cases hok

/-- After a cut the lexer goes on with what is left. -/
theorem tokenizeFrom_cut {cut : Cut} (hc : Text.isLayout c = false) (h : Cut.split c cs = .ok cut) :
    tokenizeFrom p (c :: cs) = (tokenizeFrom (p.advance cut.lexeme) cut.rest).map
      (⟨Token.ofLexeme cut.kind cut.lexeme, p⟩ :: ·) := by
  rw [tokenizeFrom, if_neg (by simp [hc])]
  split
  · next herr => rw [h] at herr; cases herr
  · next hok =>
    rw [h] at hok
    cases hok
    cases tokenizeFrom (p.advance cut.lexeme) cut.rest <;> rfl

end

def tokenize (text : String) : Except Error (List PlacedToken) :=
  tokenizeFrom .start text.toList

end MailSieve
