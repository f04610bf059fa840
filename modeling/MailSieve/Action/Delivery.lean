import MailSieve.Action
import MailSieve.Mail

/-!
# Carrying out actions

The actions of a run are applied in order. A run without any keeps the message.
-/

namespace MailSieve

def delivered (actions : List Action) : List Action :=
  if actions.isEmpty then [.keep] else actions

/-- The actions a journal records when the delivered ones are applied to a
message: each entry reads the message's id first and is not made if that fails. -/
def journal (mail : Mail) : List Action → List Action × Except MailError Unit
  | [] => ([], .ok ())
  | a :: rest =>
    match mail.header "Message-ID" with
    | .error e => ([], .error e)
    | .ok _ =>
      let (applied, result) := journal mail rest
      (a :: applied, result)

def deliver (mail : Mail) (actions : List Action) : List Action × Except MailError Unit :=
  journal mail (delivered actions)

end MailSieve
