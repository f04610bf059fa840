import MailSieve.Matching.Comparison
import MailSieve.Registry.Builtin
import MailSieve.Text.Blank

/-!
# Operands of commands and tests

What each command and test takes. The checks here look at one command or test
alone, not at what it contains or where it stands.
-/

namespace MailSieve

def verdict (read : Except ε α) : Except ε Unit :=
  read.map fun _ => ()

/-! ## Commands -/

namespace Command

def refuseBlock (c : Command) : Except ShapeFault Unit :=
  if c.block.isSome then .error (.blockRefused c.name) else .ok ()

def refuseTests (c : Command) : Except ShapeFault Unit :=
  if c.tests.isSome then .error (.testRefused c.name) else .ok ()

def checkBare (c : Command) : Except ShapeFault Unit := do
  c.refuseBlock
  if !c.isBare then throw (.argumentsRefused c.name)

def operand (c : Command) (what : String) : Except ShapeFault String :=
  match c.arguments with
  | [.strings [item]] => .ok item
  | [.strings items] => .error (.operandCount c.name what items.length)
  | [a] => .error (.operandKind c.name what a.kind)
  | args => .error (.argumentCount c.name args.length)

def action (c : Command) (what : String) : Except ShapeFault String := do
  c.refuseBlock
  c.refuseTests
  c.operand what

def redirectAddress (c : Command) : Except ShapeFault String := do
  let address ← c.action "address"
  if (Text.trim address.toList).isEmpty then throw .emptyAddress
  return address

def conditional (c : Command) : Except ShapeFault (Test × List Command) :=
  match c.block with
  | none => .error (.blockMissing c.name)
  | some block =>
    match c.arguments with
    | a :: _ => .error (.testNotArgument c.name a.kind)
    | [] =>
      match c.tests with
      | some [test] => .ok (test, block)
      | some tests => .error (.testCount c.name tests.length)
      | none => .error (.testMissing c.name)

def alternative (c : Command) : Except ShapeFault (List Command) :=
  match c.block with
  | none => .error (.blockMissing "else")
  | some block => if c.isBare then .ok block else .error (.argumentsRefused "else")

def requirements (c : Command) : Except ShapeFault (List String) := do
  c.refuseBlock
  match c.arguments, c.tests with
  | [.strings names], none => return names
  | _, _ => throw .requireOperand

end Command

def CommandKind.check (kind : CommandKind) (c : Command) : Except ShapeFault Unit :=
  match kind with
  | ifThen | elseIf => verdict c.conditional
  | otherwise => verdict c.alternative
  | require => verdict c.requirements
  | stop | keep | discard => c.checkBare
  | redirect => verdict c.redirectAddress
  | fileInto => verdict (c.action "mailbox")
  | reject => verdict (c.action "message")

/-! ## Tests -/

namespace Test

def testList (t : Test) : Except ShapeFault (List Test) :=
  match t.arguments with
  | a :: _ => .error (.testListNotArgument t.name a.kind)
  | [] =>
    match t.tests with
    | some (first :: rest) => .ok (first :: rest)
    | _ => .error (.testListMissing t.name)

def negated (t : Test) : Except ShapeFault Test := do
  match ← t.testList with
  | [test] => return test
  | tests => throw (.testCount "not" tests.length)

def checkBare (t : Test) : Except ShapeFault Unit :=
  if t.isBare then .ok () else .error (.argumentsRefused t.name)

def presentNames (t : Test) : Except ShapeFault (List String) :=
  match t.arguments, t.tests with
  | [.strings names], none => .ok names
  | _, _ => .error .existsOperand

def sizeOperands (t : Test) : Except ShapeFault (SizeBound × Nat) :=
  match t.arguments, t.tests with
  | [.tag tag, .number limit], none =>
    match SizeBound.ofTag? tag with
    | some bound => .ok (bound, limit)
    | none => .error (.sizeTag tag)
  | _, _ => .error .sizeOperands

def bodyKeys (t : Test) : Except ShapeFault (List String) := do
  let args ← Comparison.ofTest t false 1
  if args.matchType ≠ .contains then throw .bodyMatchType
  return args.operands.flatten

end Test

def TestKind.shape (kind : TestKind) (t : Test) : Except ShapeFault Unit :=
  match kind with
  | address | envelope => verdict (Comparison.ofTest t true 2)
  | header => verdict (Comparison.ofTest t false 2)
  | allOf | anyOf => verdict t.testList
  | negation => verdict t.negated
  | constant _ => t.checkBare
  | present => verdict t.presentNames
  | size => verdict t.sizeOperands
  | body => verdict t.bodyKeys
  | host _ => .ok ()

def liftShape : Except ShapeFault α → Except Error α
  | .ok a => .ok a
  | .error fault => .error (Fault.shape fault).error

def TestKind.check (kind : TestKind) (t : Test) : Except Error Unit :=
  match kind with
  | host test => test.check t
  | kind => liftShape (kind.shape t)

end MailSieve
