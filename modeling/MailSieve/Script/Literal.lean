import MailSieve.Error
import MailSieve.Text.Ascii
import MailSieve.Text.Blank
import MailSieve.Text.Search

/-!
# Strings and numbers as they are written

A string stands between double quotes, where a backslash makes the next
character literal, or after `text:` on lines of its own that end with a single
dot. A number may have a quantifier: K, M or G for 2^10, 2^20 or 2^30.
-/

namespace MailSieve.Literal

/-- Undoes the escapes between quotes. A backslash that ends the text is lost. -/
def unescape : List Char → List Char
  | [] => []
  | ['\\'] => []
  | '\\' :: c :: cs => c :: unescape cs
  | c :: cs => c :: unescape cs

def quotedBody? : List Char → Option (List Char)
  | '"' :: cs => if cs.getLast? = some '"' then some cs.dropLast else none
  | _ => none

def isLineEnd (c : Char) : Bool :=
  c == '\r' || c == '\n'

def isFinalLine (line : List Char) : Bool :=
  Text.dropEndWhile isLineEnd line == ['.']

/-- A line that begins with two dots stands for one that begins with one. -/
def unstuff : List Char → List Char
  | '.' :: '.' :: cs => '.' :: cs
  | line => line

def multilineText (literal : List Char) : List Char :=
  let body := Text.lines ((literal.dropWhile (· != '\n')).drop 1)
  let kept := if (body.getLast?.map isFinalLine).getD false then body.dropLast else body
  (kept.map unstuff).flatten

def string (literal : String) : Except LiteralFault String :=
  let cs := literal.toList
  match quotedBody? cs with
  | some body => .ok (String.ofList (unescape body))
  | none =>
    if Text.lowerChars (cs.take 5) == ['t', 'e', 'x', 't', ':'] then
      .ok (String.ofList (multilineText cs))
    else .error (.malformedString literal)

def numberBound : Nat := UInt64.size

def plus? (a b : UInt64) : Option UInt64 :=
  if a.toNat + b.toNat < numberBound then some (a + b) else none

def times? (a b : UInt64) : Option UInt64 :=
  if a.toNat * b.toNat < numberBound then some (a * b) else none

def quantifier? (c : Char) : Option UInt64 :=
  if c == 'K' || c == 'k' then some ((1 : UInt64) <<< 10)
  else if c == 'M' || c == 'm' then some ((1 : UInt64) <<< 20)
  else if c == 'G' || c == 'g' then some ((1 : UInt64) <<< 30)
  else none

def quantified (cs : List Char) : List Char × UInt64 :=
  match cs.getLast?.bind quantifier? with
  | some factor => (cs.dropLast, factor)
  | none => (cs, 1)

def appendDigit? (n : UInt64) (d : Char) : Option UInt64 :=
  if d.isDigit then (times? n 10).bind (plus? · (d.toNat - '0'.toNat).toUInt64) else none

/-- The number of a non-empty list of digits, which a plus sign may precede. -/
def natural? (cs : List Char) : Option UInt64 :=
  let digits := match cs with
    | '+' :: ds => ds
    | ds => ds
  if digits.isEmpty then none else digits.foldlM appendDigit? 0

/-- The number a literal stands for. Neither the digits nor the factor may lead out of range. -/
def number (literal : String) : Except LiteralFault Nat :=
  let (digits, factor) := quantified literal.toList
  match (natural? digits).bind (times? · factor) with
  | some n => .ok n.toNat
  | none => .error (.numberRange literal)

end MailSieve.Literal
