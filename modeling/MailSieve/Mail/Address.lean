import MailSieve.Text.Blank

/-!
# Addresses of a header

An address list is split into bare addresses. Quoted text and comments are
dropped, as is what stands before an angle bracket or the colon of a group.
-/

namespace MailSieve.AddressList

structure Scan where
  current : List Char := []
  quoted : Bool := false
  angles : Nat := 0
  comments : Nat := 0

namespace Scan

def hidden (s : Scan) : Bool :=
  s.quoted || 0 < s.comments

def address (s : Scan) : List String :=
  match Text.trim s.current with
  | [] => []
  | cs => [String.ofList cs]

def isSeparator (s : Scan) (c : Char) : Bool :=
  (c == ',' || c == ';') && s.angles == 0

def read (s : Scan) (c : Char) : Scan :=
  if c = '"' ∧ s.comments = 0 then { s with quoted := !s.quoted }
  else if c = '(' ∧ !s.quoted then { s with comments := s.comments + 1 }
  else if c = ')' ∧ !s.quoted ∧ 0 < s.comments then { s with comments := s.comments - 1 }
  else if s.hidden then s
  else if c = '<' then { s with angles := s.angles + 1, current := [] }
  else if c = '>' ∧ 0 < s.angles then { s with angles := s.angles - 1 }
  else if c = ':' ∧ s.angles = 0 then { s with current := [] }
  else { s with current := s.current ++ [c] }

end Scan

def scan (s : Scan) : List Char → List String
  | [] => s.address
  | c :: cs =>
    if s.hidden then
      if c = '\\' then
        match cs with
        | [] => s.address
        | _ :: rest => scan s rest
      else scan (s.read c) cs
    else if s.isSeparator c then s.address ++ scan { s with current := [] } cs
    else scan (s.read c) cs

def split (value : String) : List String :=
  scan {} value.toList

end MailSieve.AddressList
