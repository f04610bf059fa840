import MailSieve.Check.Shape
import MailSieve.Registry.Environment

/-!
# Static checks

A script is checked as a whole before any of it runs: names, operands,
extensions, and where `require`, `elsif` and `else` stand. The walk carries the
capabilities required so far.
-/

namespace MailSieve

namespace Environment

def validateComparators (env : Environment) (enabled : List String) :
    List String → Except Error Unit
  | [] => .ok ()
  | name :: names => do
    let _ ← env.comparator enabled name
    env.validateComparators enabled names

def validateTestUse (env : Environment) (enabled : List String) (t : Test) :
    Except Error Unit := do
  let kind ← env.tests.lookup t.name
  (kind.check t).mapError (·.locate t.position)
  env.checkEnabled enabled .test t.name kind.isExtension
  env.validateComparators enabled (namedComparators t.arguments)

mutual
def validateTest (env : Environment) (enabled : List String) : Test → Except Error Unit
  | ⟨name, arguments, tests, position⟩ => do
    env.validateTestUse enabled ⟨name, arguments, tests, position⟩
    env.validateTests? enabled tests
def validateTests? (env : Environment) (enabled : List String) :
    Option (List Test) → Except Error Unit
  | none => .ok ()
  | some tests => env.validateTests enabled tests
def validateTests (env : Environment) (enabled : List String) : List Test → Except Error Unit
  | [] => .ok ()
  | t :: ts => do
    env.validateTest enabled t
    env.validateTests enabled ts
end

def requireAll (env : Environment) (enabled : List String) :
    List String → Except Error (List String)
  | [] => .ok enabled
  | name :: names =>
    if env.isAvailable name then env.requireAll (enabled.insert name) names
    else .error (.lookup .extension name .notRegistered)

def requireName : String := "require"

/-- The command itself, without its tests and block, and what is enabled after
it. -/
def validateCommandUse (env : Environment) (enabled : List String) (c : Command) :
    Except Error (List String) := do
  let kind ← env.commands.lookup c.name
  (liftShape (kind.check c)).mapError (·.locate c.position)
  env.checkEnabled enabled .command c.name kind.isExtension
  if c.name = requireName then env.requireAll enabled (← liftShape c.requirements)
  else return enabled

structure Place where
  top : Bool
  preamble : Bool
  previous : Option String

def Place.start (top : Bool) : Place := ⟨top, top, none⟩

def Place.after (p : Place) (name : String) : Place :=
  { p with preamble := p.preamble && name = requireName, previous := some name }

def Place.check (p : Place) (name : String) : Except PlacementFault Unit := do
  if name = requireName ∧ !p.preamble then
    throw (if p.top then .lateRequire else .nestedRequire)
  if (name = "elsif" ∨ name = "else") ∧ p.previous ≠ some "if" ∧ p.previous ≠ some "elsif" then
    throw (.danglingBranch name)

mutual
def validateCommand (env : Environment) (enabled : List String) :
    Command → Except Error (List String)
  | ⟨name, arguments, tests, block, position⟩ => do
    let enabled ← env.validateCommandUse enabled ⟨name, arguments, tests, block, position⟩
    env.validateTests? enabled tests
    env.validateBlock? enabled block
def validateBlock? (env : Environment) (enabled : List String) :
    Option (List Command) → Except Error (List String)
  | none => .ok enabled
  | some commands => env.validateSequence enabled (.start false) commands
def validateSequence (env : Environment) (enabled : List String) (p : Place) :
    List Command → Except Error (List String)
  | [] => .ok enabled
  | c :: cs => do
    (p.check c.name).mapError (fun fault => (Fault.placement fault).errorAt c.position)
    let enabled ← env.validateCommand enabled c
    env.validateSequence enabled (p.after c.name) cs
end

def validate (env : Environment) (script : Script) : Except Error Unit :=
  verdict (env.validateSequence [] (.start true) script)

end Environment

end MailSieve
