import MailSieve.Error
import MailSieve.Registry.Table
import MailSieve.Text.Visible

/-!
# Registries

A registry binds names to what stands behind them: commands, tests or
comparators. Its policy decides whether a name can be registered again.
-/

namespace MailSieve

inductive DuplicatePolicy
  | reject
  | overwrite
deriving DecidableEq

namespace DuplicatePolicy

def name : DuplicatePolicy → String
  | reject => "reject"
  | overwrite => "overwrite"

def title : DuplicatePolicy → String
  | reject => "Reject"
  | overwrite => "Overwrite"

end DuplicatePolicy

def EntryKind.title : EntryKind → String
  | command => "Command"
  | test => "Test"
  | comparator => "Comparator"
  | extension => "Extension"

structure DuplicateError where
  kind : EntryKind
  name : String
deriving DecidableEq

def DuplicateError.message (e : DuplicateError) : String :=
  e.kind.name ++ " '" ++ e.name ++ "' is already registered"

structure Registry (α : Type u) where
  kind : EntryKind
  policy : DuplicatePolicy
  table : Table α

namespace Registry

def empty (kind : EntryKind) (policy : DuplicatePolicy) : Registry α :=
  ⟨kind, policy, .empty⟩

def insert (r : Registry α) (name : String) (value : α) : Registry α :=
  { r with table := r.table.insert name value }

def register (r : Registry α) (name : String) (value : α) : Except DuplicateError (Registry α) :=
  if r.policy = .reject ∧ r.table.contains name then .error ⟨r.kind, name⟩
  else .ok (r.insert name value)

def get? (r : Registry α) (name : String) : Option α :=
  r.table.get? name

def contains (r : Registry α) (name : String) : Bool :=
  r.table.contains name

def lookup (r : Registry α) (name : String) : Except Error α :=
  match r.get? name with
  | some value => .ok value
  | none => .error (.lookup r.kind name .notRegistered)

def names (r : Registry α) : List String :=
  r.table.names

def size (r : Registry α) : Nat :=
  r.table.size

def describe (r : Registry α) : String :=
  "Registry \x7b kind: " ++ r.kind.title ++ ", policy: " ++ r.policy.title ++ ", names: [" ++
    String.intercalate ", " (r.names.map Text.visible) ++ "] \x7d"

end Registry

end MailSieve
