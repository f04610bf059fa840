import MailSieve.Check.Shape
import MailSieve.Mail.Address
import MailSieve.Registry.Environment
import MailSieve.Run.Context

/-!
# Evaluating tests

`leafValue` is the value of a test that contains no tests. The combinators
evaluate their tests from left to right and stop at the one that decides.
-/

namespace MailSieve

def anyRead (read : String → Except MailError α) (found : α → Bool) :
    List String → Except Error Bool
  | [] => .ok false
  | name :: names =>
    match read name with
    | .error e => .error (.mail e)
    | .ok values => if found values then .ok true else anyRead read found names

def allRead (read : String → Except MailError α) (found : α → Bool) :
    List String → Except Error Bool
  | [] => .ok true
  | name :: names =>
    match read name with
    | .error e => .error (.mail e)
    | .ok values => if found values then allRead read found names else .ok false

namespace Environment

/-- The value of a comparison: some value read under one of the names in the
first operand matches a key of the second. -/
def compareRead (env : Environment) (enabled : List String) (t : Test) (takesPart : Bool)
    (read : String → Except MailError (List String)) (parts : AddressPart → String → List String) :
    Except Error Bool := do
  let args ← liftShape (Comparison.ofTest t takesPart 2)
  let comparator ← env.comparator enabled args.comparator
  match args.operands with
  | [names, keys] =>
    anyRead read
      (fun values =>
        args.matchType.any comparator (values.flatMap (parts args.addressPart)) keys)
      names
  | _ => return false

def leafValue (env : Environment) (enabled : List String) (mail : Mail) (kind : TestKind)
    (t : Test) : Except Error Bool :=
  match kind with
  | .constant value => .ok value
  | .header => env.compareRead enabled t false mail.header fun _ value => [value]
  | .address =>
    env.compareRead enabled t true mail.header fun part value =>
      (AddressList.split value).map part.extract
  | .envelope =>
    env.compareRead enabled t true mail.envelope fun part value => [part.extract value]
  | .present => do
    allRead mail.header (! ·.isEmpty) (← liftShape t.presentNames)
  | .size => do
    let (bound, limit) ← liftShape t.sizeOperands
    match mail.size with
    | .error e => throw (.mail e)
    | .ok size => return bound.holds size limit
  | .body => do
    anyRead mail.bodyContains (fun found => found) (← liftShape t.bodyKeys)
  | .host test => test.evaluate mail t
  | .anyOf | .allOf | .negation => .ok false

def reachedLeaf (kind : TestKind) (t : Test) : List Test :=
  match kind with
  | .host _ => [t]
  | _ => []

mutual
def evaluate (env : Environment) (enabled : List String) (mail : Mail) : Test → Traced Bool
  | ⟨name, arguments, tests, position⟩ =>
    let t : Test := ⟨name, arguments, tests, position⟩
    Traced.locate (do
      let kind ← Traced.ofExcept (env.tests.lookup name)
      Traced.ofExcept (kind.check t)
      Traced.ofExcept (env.checkEnabled enabled .test name kind.isExtension)
      match kind with
      | .anyOf => env.evaluateUntil? enabled mail true tests
      | .allOf => env.evaluateUntil? enabled mail false tests
      | .negation => return !(← env.evaluateUntil? enabled mail true tests)
      | kind => ⟨reachedLeaf kind t, env.leafValue enabled mail kind t⟩) position
def evaluateUntil? (env : Environment) (enabled : List String) (mail : Mail) (decisive : Bool) :
    Option (List Test) → Traced Bool
  | none => return !decisive
  | some tests => env.evaluateUntil enabled mail decisive tests
/-- Evaluates tests until one has the decisive value, which is then the value of
the whole. -/
def evaluateUntil (env : Environment) (enabled : List String) (mail : Mail) (decisive : Bool) :
    List Test → Traced Bool
  | [] => return !decisive
  | t :: ts => do
    if (← env.evaluate enabled mail t) = decisive then return decisive
    else env.evaluateUntil enabled mail decisive ts
end

end Environment

end MailSieve
