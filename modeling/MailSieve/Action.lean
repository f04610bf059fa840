/-!
# Actions

What a script decides to do with a message.
-/

namespace MailSieve

inductive Action
  | keep
  | discard
  | fileInto (destination : String)
  | redirect (address : String)
  | reject (message : String)
deriving DecidableEq

namespace Action

def isReject : Action → Bool
  | reject _ => true
  | _ => false

def destination? : Action → Option String
  | fileInto destination => some destination
  | _ => none

def escape : List Char → List Char
  | [] => []
  | c :: cs => if c = '\\' ∨ c = '"' then '\\' :: c :: escape cs else c :: escape cs

def quote (s : String) : String :=
  String.ofList ('"' :: escape s.toList ++ ['"'])

def render : Action → String
  | keep => "keep;"
  | discard => "discard;"
  | fileInto destination => "fileinto " ++ quote destination ++ ";"
  | redirect address => "redirect " ++ quote address ++ ";"
  | reject message => "reject " ++ quote message ++ ";"

end Action

end MailSieve
