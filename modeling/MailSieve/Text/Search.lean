/-!
# Searching and splitting lists of characters
-/

namespace MailSieve.Text

def occurs [BEq α] (key : List α) : List α → Bool
  | [] => key.isEmpty
  | c :: cs => key.isPrefixOf (c :: cs) || occurs key cs

/-- The pieces between the separators, one more than there are separators. -/
def splitAt [BEq α] (sep : α) : List α → List (List α)
  | [] => [[]]
  | c :: cs =>
    if c == sep then [] :: splitAt sep cs
    else
      match splitAt sep cs with
      | [] => [[c]]
      | piece :: pieces => (c :: piece) :: pieces

def lines : List Char → List (List Char)
  | [] => []
  | c :: cs =>
    if c == '\n' then [c] :: lines cs
    else
      match lines cs with
      | [] => [[c]]
      | line :: rest => (c :: line) :: rest

def splitLast? [BEq α] (sep : α) (xs : List α) : Option (List α × List α) :=
  match xs.reverse.span (· != sep) with
  | (_, []) => none
  | (after, _ :: before) => some (before.reverse, after.reverse)

def dropStart? [BEq α] : List α → List α → Option (List α)
  | [], xs => some xs
  | _ :: _, [] => none
  | p :: ps, x :: xs => if p == x then dropStart? ps xs else none

end MailSieve.Text
