/-!
# JSON values

Objects keep their fields in order, repeated ones included. Numbers are kept as
they are written.
-/

namespace MailSieve

inductive Json
  | null
  | bool (value : Bool)
  | number (literal : String)
  /-- A string; `none` when its escapes name half of a surrogate pair, so that it
  stands for no text. -/
  | string (text : Option String)
  | array (items : List Json)
  | object (fields : List (Option String × Json))

namespace Json

def text (s : String) : Json := .string (some s)

def record (fields : List (String × Json)) : Json :=
  .object (fields.map fun (name, value) => (some name, value))

def text? : Json → Option String
  | string s => s
  | _ => none

def field? (name : String) : Json → Option Json
  | object fields => (fields.reverse.find? (·.1 = some name)).map (·.2)
  | _ => none

end Json

end MailSieve
