import MailSieve.Registry.Builtin

/-!
# Environments

An environment says what the names of a script stand for, and whether a script
has to require the extensions it uses.
-/

namespace MailSieve

structure Environment where
  commands : Registry CommandKind
  tests : Registry TestKind
  comparators : Registry Comparator
  /-- Whether extensions have to be required before they are used. -/
  enforceRequire : Bool

namespace Environment

def empty (policy : DuplicatePolicy) : Environment where
  commands := .empty .command policy
  tests := .empty .test policy
  comparators := .empty .comparator policy
  enforceRequire := false

def standard : Environment where
  commands := CommandKind.all.foldl (fun r k => r.insert k.id k) (.empty .command .reject)
  tests := TestKind.all.foldl (fun r e => r.insert e.1 e.2) (.empty .test .reject)
  comparators := Comparator.all.foldl (fun r e => r.insert e.1 e.2) (.empty .comparator .reject)
  enforceRequire := false

def comparatorCapability (name : String) : String :=
  "comparator-" ++ name

/-- Whether a script may require the capability: it is an extension, or a
registered comparator. -/
def isAvailable (env : Environment) (capability : String) : Bool :=
  match Text.dropStart? (comparatorCapability "").toList capability.toList with
  | some name => env.comparators.contains (String.ofList name)
  | none =>
    (env.commands.get? capability).any (·.isExtension) ||
      (env.tests.get? capability).any (·.isExtension)

def capability (kind : EntryKind) (name : String) : String :=
  match kind with
  | .comparator => comparatorCapability name
  | _ => name

/-- Refuses an extension that has not been enabled, where that is enforced. -/
def checkEnabled (env : Environment) (enabled : List String) (kind : EntryKind) (name : String)
    (isExtension : Bool) : Except Error Unit :=
  if !isExtension || !env.enforceRequire || enabled.contains (capability kind name) then .ok ()
  else .error (.lookup kind name .notRequired)

def comparator (env : Environment) (enabled : List String) (name : String) :
    Except Error Comparator := do
  let comparator ← env.comparators.lookup name
  env.checkEnabled enabled .comparator name comparator.isExtension
  return comparator

end Environment

end MailSieve
