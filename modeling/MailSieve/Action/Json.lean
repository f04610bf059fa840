import MailSieve.Action
import MailSieve.Json

/-!
# Actions as JSON

An object whose field `action` names the action. An array of the values is read as
well.
-/

namespace MailSieve.Action

def toJson : Action → Json
  | keep => .record [("action", .text "keep")]
  | discard => .record [("action", .text "discard")]
  | fileInto destination =>
    .record [("action", .text "fileinto"), ("destination", .text destination)]
  | redirect address => .record [("action", .text "redirect"), ("address", .text address)]
  | reject message => .record [("action", .text "reject"), ("message", .text message)]

def ofParts? (name : String) (operand? : String → Option String) : Option Action :=
  if name = "keep" then some keep
  else if name = "discard" then some discard
  else if name = "fileinto" then (operand? "destination").map fileInto
  else if name = "redirect" then (operand? "address").map redirect
  else if name = "reject" then (operand? "message").map reject
  else none

def operandCount : Action → Nat
  | keep | discard => 0
  | fileInto _ | redirect _ | reject _ => 1

/-- Reads an action: an object, whose further fields are ignored, or an array of
the name and what the action takes. -/
def ofJson? : Json → Option Action
  | .array (name :: items) => do
    let a ← ofParts? (← name.text?) fun _ => items.head?.bind Json.text?
    if items.length = a.operandCount then return a else none
  | j => do
    let field (name : String) : Option String := (j.field? name).bind Json.text?
    ofParts? (← field "action") field

end MailSieve.Action
