import MailSieve.Position

/-!
# Scripts

A script is a sequence of commands. Commands and tests carry positional
arguments and possibly a list of tests; a command may also carry a block.
-/

namespace MailSieve

inductive Argument
  | strings (items : List String)
  | number (value : Nat)
  /-- A tag, lowercased and with its colon. -/
  | tag (name : String)
deriving DecidableEq

inductive ArgumentKind
  | stringList
  | number
  | tag
deriving DecidableEq

def ArgumentKind.name : ArgumentKind → String
  | stringList => "string-list"
  | number => "number"
  | tag => "tag"

def Argument.kind : Argument → ArgumentKind
  | strings _ => .stringList
  | number _ => .number
  | tag _ => .tag

/-- The use of a test, such as `header :is "From" "a@b"`. An empty list of tests
differs from no list. -/
structure Test where
  name : String
  arguments : List Argument
  tests : Option (List Test)
  position : Position

namespace Test

def isBare (t : Test) : Bool :=
  t.arguments.isEmpty && t.tests.isNone

def testCount (t : Test) : Nat :=
  (t.tests.getD []).length

end Test

structure Command where
  name : String
  arguments : List Argument
  tests : Option (List Test)
  block : Option (List Command)
  position : Position

namespace Command

def isBare (c : Command) : Bool :=
  c.arguments.isEmpty && c.tests.isNone

end Command

abbrev Script := List Command

end MailSieve
