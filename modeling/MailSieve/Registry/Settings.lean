import MailSieve.Json.Reader
import MailSieve.Json.Writer
import MailSieve.Registry.Environment

/-!
# Settings

Which built-in stands behind each name. Settings are kept as JSON: an object
with a field for each part, or an array of the parts in order. A part that is
left out keeps its default.
-/

namespace MailSieve

structure Settings where
  commands : Table String
  tests : Table String
  comparators : Table String
  duplicatePolicy : DuplicatePolicy
  enforceRequire : Bool
deriving DecidableEq

inductive SettingsError
  | unreadable (reason : String)
  | malformed
  | unknownId (kind : EntryKind) (name : String) (id : String)
  | duplicate (error : DuplicateError)
deriving DecidableEq

def SettingsError.message : SettingsError → String
  | unreadable reason => "cannot read configuration: " ++ reason
  | malformed => "invalid configuration"
  | unknownId kind name id =>
    kind.name ++ " '" ++ name ++ "' maps to unknown implementation '" ++ id ++ "'"
  | duplicate error => error.message

namespace Settings

def ownNames (ids : List String) : Table String :=
  .ofList (ids.map fun id => (id, id))

def standard : Settings where
  commands := ownNames (CommandKind.all.map (·.id))
  tests := ownNames (TestKind.all.map (·.1))
  comparators := ownNames (Comparator.all.map (·.1))
  duplicatePolicy := .reject
  enforceRequire := false

/-! ## Writing -/

def tableJson (t : Table String) : Json :=
  .record (t.entries.map fun (name, id) => (name, .text id))

def toJson (s : Settings) : Json :=
  .record [
    ("commands", tableJson s.commands),
    ("tests", tableJson s.tests),
    ("comparators", tableJson s.comparators),
    ("duplicate_policy", .text s.duplicatePolicy.name),
    ("enforce_require", .bool s.enforceRequire)]

def save (s : Settings) : String :=
  s.toJson.pretty

/-! ## Reading -/

def addFields (t : Table String) : List (Option String × Json) → Option (Table String)
  | [] => some t
  | (some name, .string (some id)) :: fields => addFields (t.insert name id) fields
  | _ :: _ => none

def readTable : Json → Option (Table String)
  | .object fields => addFields .empty fields
  | _ => none

def policyOfName? (name : String) : Option DuplicatePolicy :=
  if name = "reject" then some .reject
  else if name = "overwrite" then some .overwrite
  else none

/-- A policy is its name, or an object with that name and a null. -/
def readPolicy : Json → Option DuplicatePolicy
  | .string (some name) => policyOfName? name
  | .object [(some name, .null)] => policyOfName? name
  | _ => none

def readBool : Json → Option Bool
  | .bool b => some b
  | _ => none

inductive Part
  | commands
  | tests
  | comparators
  | duplicatePolicy
  | enforceRequire
deriving DecidableEq

namespace Part

def all : List Part := [commands, tests, comparators, duplicatePolicy, enforceRequire]

def name : Part → String
  | commands => "commands"
  | tests => "tests"
  | comparators => "comparators"
  | duplicatePolicy => "duplicate_policy"
  | enforceRequire => "enforce_require"

def ofName? (name : String) : Option Part :=
  all.find? (·.name = name)

end Part

def setPart (s : Settings) (part : Part) (j : Json) : Option Settings :=
  match part with
  | .commands => (readTable j).map fun t => { s with commands := t }
  | .tests => (readTable j).map fun t => { s with tests := t }
  | .comparators => (readTable j).map fun t => { s with comparators := t }
  | .duplicatePolicy => (readPolicy j).map fun p => { s with duplicatePolicy := p }
  | .enforceRequire => (readBool j).map fun b => { s with enforceRequire := b }

/-- Reads the fields of an object; the parts `seen` may not be given again and
other fields are ignored. -/
def setFields (s : Settings) (seen : List Part) :
    List (Option String × Json) → Option Settings
  | [] => some s
  | (none, _) :: _ => none
  | (some name, j) :: fields =>
    match Part.ofName? name with
    | none => setFields s seen fields
    | some part =>
      if part ∈ seen then none
      else
        match setPart s part j with
        | some s' => setFields s' (part :: seen) fields
        | none => none

def setItems (s : Settings) : List Part → List Json → Option Settings
  | _, [] => some s
  | [], _ :: _ => none
  | part :: parts, j :: items =>
    match setPart s part j with
    | some s' => setItems s' parts items
    | none => none

def ofJson? : Json → Option Settings
  | .object fields => setFields standard [] fields
  | .array items => setItems standard Part.all items
  | _ => none

def load (text : String) : Except SettingsError Settings :=
  match (Json.parse? text).bind ofJson? with
  | some s => .ok s
  | none => .error .malformed

end Settings

namespace Environment

def registerAll (builtin? : String → Option α) (r : Registry α) :
    List (String × String) → Except SettingsError (Registry α)
  | [] => .ok r
  | (name, id) :: entries =>
    match builtin? id with
    | none => .error (.unknownId r.kind name id)
    | some value =>
      match r.register name value with
      | .error e => .error (.duplicate e)
      | .ok r' => registerAll builtin? r' entries

def ofSettings (s : Settings) : Except SettingsError Environment := do
  let base := empty s.duplicatePolicy
  return {
    commands := ← registerAll CommandKind.ofId? base.commands s.commands.entries
    tests := ← registerAll TestKind.ofId? base.tests s.tests.entries
    comparators := ← registerAll Comparator.ofId? base.comparators s.comparators.entries
    enforceRequire := s.enforceRequire }

end Environment

end MailSieve
