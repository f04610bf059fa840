import MailSieve.Position

/-!
# Tokens of a script
-/

namespace MailSieve

inductive Punct
  | semicolon
  | comma
  | openParen
  | closeParen
  | openBrace
  | closeBrace
  | openBracket
  | closeBracket
deriving DecidableEq

namespace Punct

def toChar : Punct → Char
  | semicolon => ';'
  | comma => ','
  | openParen => '('
  | closeParen => ')'
  | openBrace => '\x7b'
  | closeBrace => '\x7d'
  | openBracket => '['
  | closeBracket => ']'

def ofChar? (c : Char) : Option Punct :=
  if c = ';' then some semicolon
  else if c = ',' then some comma
  else if c = '(' then some openParen
  else if c = ')' then some closeParen
  else if c = '\x7b' then some openBrace
  else if c = '\x7d' then some closeBrace
  else if c = '[' then some openBracket
  else if c = ']' then some closeBracket
  else none

theorem ofChar?_eq_some {c : Char} {p : Punct} : ofChar? c = some p ↔ p.toChar = c := by
  constructor
  · grind [ofChar?, toChar]
  · rintro rfl
    cases p <;> rfl

end Punct

/-- A token holds its text: a tag lowercased and with its colon, strings and
numbers as they are written, a comment trimmed and without its delimiters. -/
inductive Token
  | tag (name : String)
  | identifier (name : String)
  | quoted (literal : String)
  | multiline (literal : String)
  | number (literal : String)
  | comment (text : String)
  | blockComment (text : String)
  | punct (p : Punct)
deriving DecidableEq

namespace Token

def isComment : Token → Bool
  | comment _ | blockComment _ => true
  | _ => false

def describe : Token → String
  | tag name => "tag '" ++ name ++ "'"
  | identifier name => "identifier '" ++ name ++ "'"
  | quoted _ | multiline _ => "string"
  | number literal => "number " ++ literal
  | comment _ | blockComment _ => "comment"
  | punct p => "'" ++ String.singleton p.toChar ++ "'"

end Token

structure PlacedToken where
  token : Token
  position : Position
deriving DecidableEq

end MailSieve
