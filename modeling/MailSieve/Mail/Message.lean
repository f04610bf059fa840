import MailSieve.Mail
import MailSieve.Mail.Body

/-!
# Messages

A message in its transfer form: header fields, a blank line and a body.
-/

namespace MailSieve

structure Message where
  headers : List (String × String)
  bodies : List String
  size : Nat
  envelope : List (String × String)

/-- A header value on one line: the lines it is folded over are trimmed and
joined by single spaces, blank ones left out. -/
def unfoldValue (value : List Char) : List Char :=
  [' '].intercalate (((Text.splitAt '\n' (lineFeeds value)).map Text.trim).filter (! ·.isEmpty))
where
  lineFeeds : List Char → List Char
    | '\r' :: '\n' :: cs => '\n' :: lineFeeds cs
    | c :: cs => c :: lineFeeds cs
    | [] => []

namespace Message

def headerOf (name : String) (value : List UInt8) : String × String :=
  (name, String.ofList (unfoldValue (Text.decodeLossy value)))

/-- Reads a message. It needs a header field or a blank line that ends them. -/
def ofBytes (bytes : List UInt8) : Except MailError Message :=
  match HeaderField.readAll bytes with
  | ([], none) => .error (.malformed "no message headers found")
  | (fields, _) =>
    let draft := Body.readDraft bytes
    let headers := (draft.fields.getD fields).map fun f => headerOf f.name (draft.value bytes f)
    .ok ⟨headers, draft.texts, bytes.length, []⟩

def addEnvelope (m : Message) (part value : String) : Message :=
  { m with envelope := m.envelope ++ [(part, value)] }

def header (m : Message) (name : String) : List String :=
  (m.headers.filter fun h => Text.sameFolded h.1 name).map (·.2)

def distinctNames : List String → List String → List String
  | known, [] => known
  | known, name :: names =>
    if known.any (Text.sameFolded · name) then distinctNames known names
    else distinctNames (known ++ [name]) names

def headerNames (m : Message) : List String :=
  distinctNames [] (m.headers.map (·.1))

def envelopePart (m : Message) (part : String) : List String :=
  (m.envelope.filter (·.1 = Text.lowerText part)).map (·.2)

def bodyContains (m : Message) (phrase : String) : Bool :=
  m.bodies.any fun body =>
    Text.occurs (Text.lowerChars phrase.toList) (Text.lowerChars body.toList)

/-- A message as scripts read it; no access fails. -/
def toMail (m : Message) : Mail where
  header name := .ok (m.header name)
  headerNames := .ok m.headerNames
  size := .ok m.size
  envelope part := .ok (m.envelopePart part)
  bodyContains phrase := .ok (m.bodyContains phrase)

end Message

end MailSieve
