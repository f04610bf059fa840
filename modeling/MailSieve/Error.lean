import MailSieve.Mail
import MailSieve.Script
import MailSieve.Token
import MailSieve.Tree

/-!
# What can go wrong

Each stage of reading a script has its own type of faults. An `Error` adds the
place in the script, where one is known, and covers what happens at run time.
-/

namespace MailSieve

/-! ## Faults of the text -/

inductive LexFault
  | openBlockComment
  | openString
  | openMultiline
  | bareColon
  | strayChar (c : Char)
deriving DecidableEq

def LexFault.message : LexFault → String
  | openBlockComment => "unterminated block comment"
  | openString => "unterminated string"
  | openMultiline => "unterminated multi-line string"
  | bareColon => "expected tag name after ':'"
  | strayChar c => "unexpected character '" ++ String.singleton c ++ "'"

inductive Expected
  | command
  | commandEnd
  | test
  | testListEnd
  | string
  | stringListEnd
deriving DecidableEq

def Expected.describe : Expected → String
  | command => "a command"
  | commandEnd => "';' or '\x7b'"
  | test => "a test"
  | testListEnd => "',' or ')'"
  | string => "a string"
  | stringListEnd => "',' or ']'"

inductive GrammarFault
  /-- Another token stands where one of those expected has to; `none` is the
  end of the text. -/
  | unexpected (expected : Expected) (found : Option Token)
  | openBlock
  | tooDeep
deriving DecidableEq

def GrammarFault.message : GrammarFault → String
  | unexpected expected found =>
    "expected " ++ expected.describe ++ ", found " ++
      (found.map Token.describe).getD "end of input"
  | openBlock => "unclosed block"
  | tooDeep => "nesting too deep"

/-! ## Faults of a tree -/

inductive LiteralFault
  | malformedString (literal : String)
  | numberRange (literal : String)
deriving DecidableEq

def LiteralFault.message : LiteralFault → String
  | malformedString literal => "malformed string literal " ++ literal
  | numberRange literal => "number out of range: " ++ literal

inductive TreeFault
  | rootArity (children : Nat)
  | rootKind (found : NodeKind)
  /-- A node under a parent that may not hold it; `none` is no parent at all. -/
  | misplaced (found : NodeKind) (parent : Option NodeKind)
  | twoArgumentLists (holder : NodeKind) (name : String)
  | twoBlocks (name : String)
  | blockArity
  | twoTestLists
  | emptyArgument
  | mixedArgument
deriving DecidableEq

def TreeFault.message : TreeFault → String
  | rootArity n => "start must have exactly one child, found " ++ toString n
  | rootKind found => "expected start node, found " ++ found.name
  | misplaced found parent =>
    "unexpected " ++ found.name ++ " inside " ++ (parent.map NodeKind.name).getD "the tree"
  | twoArgumentLists holder name =>
    holder.name ++ " '" ++ name ++ "' has more than one argument list"
  | twoBlocks name => "command '" ++ name ++ "' has more than one block"
  | blockArity => "block must hold exactly one command list"
  | twoTestLists => "more than one test list in arguments"
  | emptyArgument => "empty argument"
  | mixedArgument => "argument mixes strings, numbers and tags"

/-! ## Faults of a script -/

inductive PlacementFault
  | lateRequire
  | nestedRequire
  | danglingBranch (name : String)
deriving DecidableEq

def PlacementFault.message : PlacementFault → String
  | lateRequire => "'require' must come before any other command"
  | nestedRequire => "'require' is only allowed at the top level"
  | danglingBranch name => "'" ++ name ++ "' must follow 'if' or 'elsif'"

inductive ShapeFault
  | blockRefused (name : String)
  | blockMissing (name : String)
  | testRefused (name : String)
  | testMissing (name : String)
  | testCount (name : String) (found : Nat)
  | testNotArgument (name : String) (found : ArgumentKind)
  | argumentsRefused (name : String)
  | argumentCount (name : String) (found : Nat)
  | operandCount (name : String) (what : String) (found : Nat)
  | operandKind (name : String) (what : String) (found : ArgumentKind)
  | emptyAddress
  | requireOperand
  | testListMissing (name : String)
  | testListNotArgument (name : String) (found : ArgumentKind)
  | existsOperand
  | sizeOperands
  | sizeTag (tag : String)
  | bodyMatchType
  | lateTag (name : String) (tag : String)
  | tagRefused (name : String) (tag : String)
  | repeatedTag (name : String) (what : String)
  | comparatorOperand
  | numberRefused (name : String) (value : Nat)
  | stringListCount (name : String) (expected found : Nat)
deriving DecidableEq

def ShapeFault.message : ShapeFault → String
  | blockRefused name => "'" ++ name ++ "' does not take a block"
  | blockMissing name => "'" ++ name ++ "' requires a block"
  | testRefused name => "'" ++ name ++ "' does not take a test"
  | testMissing name => "'" ++ name ++ "' requires a test"
  | testCount name found =>
    "'" ++ name ++ "' expects exactly one test, found " ++ toString found
  | testNotArgument name found => "'" ++ name ++ "' takes a test, not " ++ found.name
  | argumentsRefused name => "'" ++ name ++ "' takes no arguments"
  | argumentCount name found =>
    "'" ++ name ++ "' expects exactly 1 argument, found " ++ toString found
  | operandCount name what found =>
    "'" ++ name ++ "' expects a single " ++ what ++ ", found a list of " ++ toString found
  | operandKind name what found =>
    "'" ++ name ++ "' expects a " ++ what ++ " string, found a " ++ found.name
  | emptyAddress => "'redirect' expects a non-empty address"
  | requireOperand => "'require' expects a single string-list"
  | testListMissing name => "'" ++ name ++ "' expects a test-list"
  | testListNotArgument name found =>
    "'" ++ name ++ "' expects a test-list, found a " ++ found.name
  | existsOperand => "'exists' expects a single string-list"
  | sizeOperands => "'size' expects :over or :under followed by a number"
  | sizeTag tag => "'size' expects :over or :under, found " ++ tag
  | bodyMatchType => "'body' only supports :contains"
  | lateTag name tag => "'" ++ name ++ "': tag " ++ tag ++ " must come before the string lists"
  | tagRefused name tag => "'" ++ name ++ "' does not accept tag " ++ tag
  | repeatedTag name what => "'" ++ name ++ "' has more than one " ++ what
  | comparatorOperand => ":comparator expects a single comparator name"
  | numberRefused name value =>
    "'" ++ name ++ "' does not take a number (" ++ toString value ++ ")"
  | stringListCount name expected found =>
    "'" ++ name ++ "' expects " ++ toString expected ++ " string-list argument(s), found " ++
      toString found

inductive Fault
  | lexical (fault : LexFault)
  | grammar (fault : GrammarFault)
  | literal (fault : LiteralFault)
  | tree (fault : TreeFault)
  | placement (fault : PlacementFault)
  | shape (fault : ShapeFault)
  | host (text : String)
deriving DecidableEq

def Fault.message : Fault → String
  | lexical fault => fault.message
  | grammar fault => fault.message
  | literal fault => fault.message
  | tree fault => fault.message
  | placement fault => fault.message
  | shape fault => fault.message
  | host text => text

/-! ## Errors -/

inductive EntryKind
  | command
  | test
  | comparator
  | extension
deriving DecidableEq

def EntryKind.name : EntryKind → String
  | command => "command"
  | test => "test"
  | comparator => "comparator"
  | extension => "extension"

inductive NameFault
  | notRegistered
  | notRequired
deriving DecidableEq

inductive CommandFault
  | rejectNotAlone
  | host (text : String)
deriving DecidableEq

def CommandFault.message : CommandFault → String
  | rejectNotAlone => "reject must be the only action"
  | host text => text

inductive Error
  | illFormed (fault : Fault) (position : Option Position)
  | lookup (kind : EntryKind) (name : String) (failure : NameFault)
  | command (fault : CommandFault) (position : Option Position)
  | mail (error : MailError)
deriving DecidableEq

namespace Error

/-- Adds a place unless the error has one or is of a kind that has none. -/
def locate (e : Error) (p : Position) : Error :=
  match e with
  | illFormed fault position => illFormed fault (some (position.getD p))
  | command fault position => command fault (some (position.getD p))
  | lookup .. | mail _ => e

def position : Error → Option Position
  | illFormed _ position | command _ position => position
  | lookup .. | mail _ => none

private def place : Option Position → String
  | some p => " at " ++ p.describe
  | none => ""

def message : Error → String
  | illFormed fault position => "syntax error" ++ place position ++ ": " ++ fault.message
  | command fault position => "command error" ++ place position ++ ": " ++ fault.message
  | lookup kind name .notRegistered => "unknown " ++ kind.name ++ " '" ++ name ++ "'"
  | lookup kind name .notRequired =>
    kind.name ++ " '" ++ name ++ "' is an extension and must be declared with require"
  | mail error => "mail access error: " ++ error.message

end Error

def Fault.errorAt (fault : Fault) (p : Position) : Error :=
  .illFormed fault (some p)

def Fault.error (fault : Fault) : Error :=
  .illFormed fault none

end MailSieve
