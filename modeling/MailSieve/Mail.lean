/-!
# Mail as a script sees it

A script reads a message only through the accessors of `Mail`, any of which
may fail.
-/

namespace MailSieve

inductive MailError
  | io (text : String)
  | malformed (text : String)
  | unsupported (capability : String)
deriving DecidableEq

def MailError.message : MailError → String
  | io text => "I/O error: " ++ text
  | malformed text => "malformed message: " ++ text
  | unsupported capability => capability ++ " not supported by this mail adapter"

structure Mail where
  /-- All values of the named header in message order, none when it is absent. -/
  header : String → Except MailError (List String)
  headerNames : Except MailError (List String)
  size : Except MailError Nat
  envelope : String → Except MailError (List String)
  bodyContains : String → Except MailError Bool

end MailSieve
