import MailSieve.Error
import MailSieve.Matching.Comparator

/-!
# Arguments of the comparison tests

Tags come first, in any order: a comparator with its name, a match type and,
for some tests, an address part, each at most once. String lists follow.
-/

namespace MailSieve

def defaultComparator : String := "i;ascii-casemap"

def comparatorTag : String := ":comparator"

structure ComparisonTags where
  comparator : Option String := none
  matchType : Option MatchType := none
  addressPart : Option AddressPart := none
deriving DecidableEq

structure Comparison where
  comparator : String
  matchType : MatchType
  addressPart : AddressPart
  operands : List (List String)
deriving DecidableEq

namespace Comparison

def fill (slot : Option α) (value : α) (name what : String) : Except ShapeFault (Option α) :=
  if slot.isSome then .error (.repeatedTag name what) else .ok (some value)

def addTag (name : String) (takesPart : Bool) (tags : ComparisonTags) (tag : String) :
    Except ShapeFault ComparisonTags :=
  match MatchType.ofTag? tag with
  | some m => do
    return { tags with matchType := ← fill tags.matchType m name "match type" }
  | none =>
    match AddressPart.ofTag? tag, takesPart with
    | some part, true => do
      return { tags with addressPart := ← fill tags.addressPart part name "address part" }
    | _, _ => throw (.tagRefused name tag)

def read (name : String) (takesPart : Bool) (tags : ComparisonTags) (lists : List (List String)) :
    List Argument → Except ShapeFault (ComparisonTags × List (List String))
  | [] => .ok (tags, lists)
  | .strings items :: rest => read name takesPart tags (lists ++ [items]) rest
  | .number n :: _ => .error (.numberRefused name n)
  | .tag tag :: rest =>
    if lists ≠ [] then .error (.lateTag name tag)
    else if tag = comparatorTag then
      match rest with
      | .strings [comparator] :: rest => do
        let comparator ← fill tags.comparator comparator name comparatorTag
        read name takesPart { tags with comparator } lists rest
      | _ => .error .comparatorOperand
    else do
      read name takesPart (← addTag name takesPart tags tag) lists rest

/-- The arguments of a test that takes `operands` string lists and, if
`takesPart` is set, an address part. -/
def ofTest (t : Test) (takesPart : Bool) (operands : Nat) : Except ShapeFault Comparison := do
  if t.tests.isSome then throw (.testRefused t.name)
  let (tags, lists) ← read t.name takesPart {} [] t.arguments
  if lists.length ≠ operands then throw (.stringListCount t.name operands lists.length)
  return {
    comparator := tags.comparator.getD defaultComparator
    matchType := tags.matchType.getD .is
    addressPart := tags.addressPart.getD .all
    operands := lists }

end Comparison

/-- The comparators named in a list of arguments: the first string after each
comparator tag. -/
def namedComparators : List Argument → List String
  | .tag tag :: .strings items :: rest =>
    if tag = comparatorTag then items.head?.toList ++ namedComparators (.strings items :: rest)
    else namedComparators (.strings items :: rest)
  | _ :: rest => namedComparators rest
  | [] => []

end MailSieve
