/-!
# ASCII letters, digits and case

Tags and the case-insensitive comparator fold the letters `A` to `Z` only;
every other character stands for itself.
-/

namespace MailSieve.Text

def isWord (c : Char) : Bool :=
  c.isAlphanum || c == '_'

def byte (c : Char) : UInt8 :=
  c.toUInt8

def lowerChars (cs : List Char) : List Char :=
  cs.map Char.toLower

def lowerText (s : String) : String :=
  String.ofList (lowerChars s.toList)

def sameFolded (a b : String) : Bool :=
  lowerChars a.toList == lowerChars b.toList

def digitsValue (digits : List Char) : Nat :=
  digits.foldl (fun n d => 10 * n + (d.toNat - '0'.toNat)) 0

end MailSieve.Text
