import MailSieve.Matching.Glob
import MailSieve.Text.Ascii
import MailSieve.Text.Search

/-!
# Comparators

A comparator decides equality, containment and pattern matching of a value and
a key. An extension has to be required by the script before it is used.
-/

namespace MailSieve

structure Comparator where
  equals : String → String → Bool
  contains : String → String → Bool
  globs : String → String → Bool
  isExtension : Bool

namespace Comparator

def octet : Comparator where
  equals value key := value == key
  contains value key := Text.occurs key.toList value.toList
  globs value key := Glob.accepts (· == ·) (Glob.ofChars key.toList) value.toList
  isExtension := false

def sameLetter (a b : Char) : Bool :=
  a.toLower == b.toLower

def asciiCasemap : Comparator where
  equals value key := Text.sameFolded value key
  contains value key := Text.occurs (Text.lowerChars key.toList) (Text.lowerChars value.toList)
  globs value key := Glob.accepts sameLetter (Glob.ofChars key.toList) value.toList
  isExtension := false

end Comparator

inductive MatchType
  | is
  | contains
  | globs
deriving DecidableEq

namespace MatchType

def tag : MatchType → String
  | is => ":is"
  | contains => ":contains"
  | globs => ":matches"

def ofTag? (tag : String) : Option MatchType :=
  if tag = ":is" then some is
  else if tag = ":contains" then some contains
  else if tag = ":matches" then some globs
  else none

theorem ofTag?_eq_some {s : String} {m : MatchType} : ofTag? s = some m ↔ s = m.tag := by
  constructor
  · grind [ofTag?, tag]
  · rintro rfl
    cases m <;> decide

def holds (m : MatchType) (comparator : Comparator) (value key : String) : Bool :=
  match m with
  | is => comparator.equals value key
  | contains => comparator.contains value key
  | globs => comparator.globs value key

def any (m : MatchType) (comparator : Comparator) (values keys : List String) : Bool :=
  values.any fun value => keys.any (m.holds comparator value)

end MatchType

inductive AddressPart
  | all
  | localpart
  | domain
deriving DecidableEq

namespace AddressPart

def tag : AddressPart → String
  | all => ":all"
  | localpart => ":localpart"
  | domain => ":domain"

def ofTag? (tag : String) : Option AddressPart :=
  if tag = ":all" then some all
  else if tag = ":localpart" then some localpart
  else if tag = ":domain" then some domain
  else none

theorem ofTag?_eq_some {s : String} {p : AddressPart} : ofTag? s = some p ↔ s = p.tag := by
  constructor
  · grind [ofTag?, tag]
  · rintro rfl
    cases p <;> decide

/-- The part of an address, cut at its last at sign. An address without one is
all local part. -/
def extract (part : AddressPart) (address : String) : String :=
  match part, Text.splitLast? '@' address.toList with
  | all, _ => address
  | localpart, some (before, _) => String.ofList before
  | localpart, none => address
  | domain, some (_, after) => String.ofList after
  | domain, none => ""

end AddressPart

inductive SizeBound
  | above
  | below
deriving DecidableEq

namespace SizeBound

def tag : SizeBound → String
  | above => ":over"
  | below => ":under"

def ofTag? (tag : String) : Option SizeBound :=
  if tag = ":over" then some above
  else if tag = ":under" then some below
  else none

/-- Whether a size lies strictly beyond the limit. -/
def holds (bound : SizeBound) (size limit : Nat) : Bool :=
  match bound with
  | above => limit < size
  | below => size < limit

end SizeBound

end MailSieve
