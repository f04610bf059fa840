import MailSieve.Mail.Media

/-!
# Text of a body

A body is one part or, when its type is a multipart, parts between boundary
lines, which may again be multiparts. `readDraft` reads the parts that make up
the text of a message, in order. A part that is a message of its own is read
through, as its parts lie between the same boundaries, but adds no text.

A message ends at a boundary with the message that is its last part, yet only the
inner of the two is seen to end there. So the parts that follow are read into the
outer one, and when the multipart ends first, what was read around it is lost.
-/

namespace MailSieve

inductive PartKind
  | multipart (subtype : Option String)
  | plain
  | html
  | otherText
  | media
  | message
  | other
deriving DecidableEq

/-- The kind of a part. Without a type it is a message in a digest and plain text
elsewhere. -/
def PartKind.ofContentType (inDigest : Bool) : Option MediaValue → PartKind
  | none => if inDigest then message else plain
  | some v =>
    match v.type, v.subtype with
    | "multipart", subtype => multipart subtype
    | "text", some "plain" => plain
    | "text", some "html" => html
    | "text", _ => otherText
    | "image", _ | "audio", _ | "video", _ => media
    | "message", some "rfc822" | "message", some "global" => message
    | _, _ => other

namespace Body

inductive Container
  | whole
  | multipart (subtype : Option String)
  | message
deriving DecidableEq

def alternative : Container := .multipart (some "alternative")

def related : Container := .multipart (some "related")

def digest : Container := .multipart (some "digest")

structure Level where
  container : Container := .whole
  boundary : Option (List UInt8) := none
  /-- Whether it offers alternatives or stands in a container that does. -/
  inAlternative : Bool := false
  partCount : Nat := 0
  wantsHtml : Bool := true
  wantsText : Bool := true
  htmlBefore : Nat := 0
  textBefore : Nat := 0

structure Draft where
  /-- For a message that is a part, how many bytes there are from its start on. -/
  size : Option Nat := none
  fields : Option (List HeaderField) := none
  /-- The parts shown as marked-up text; a part may have no text. -/
  html : List (Option String) := []
  text : List (Option String) := []

/-- A container that is left for one inside it. When that is a message, what was
read before is kept here. -/
structure Frame where
  level : Level
  draft : Option Draft

/-! ## Boundaries -/

def cutAt (mark : List UInt8) : List UInt8 → Option (List UInt8 × List UInt8)
  | [] => if mark.isEmpty then some ([], []) else none
  | b :: bs =>
    match Text.dropStart? mark (b :: bs) with
    | some rest => some ([], rest)
    | none => (cutAt mark bs).map fun (before, after) => (b :: before, after)

def boundaryMark (boundary : List UInt8) : List UInt8 :=
  Transfer.hyphen :: Transfer.hyphen :: boundary

def skipLineEnd : List UInt8 → List UInt8
  | [] => []
  | b :: bs =>
    if b == 10 then bs
    else if b == 13 || b == 32 || b == 9 then skipLineEnd bs
    else b :: bs

inductive AfterBoundary
  | closed (rest : List UInt8)
  | part (rest : List UInt8)

def afterBoundary : List UInt8 → AfterBoundary
  | 13 :: 10 :: rest => .part rest
  | 45 :: 45 :: rest => .closed rest
  | 10 :: rest => .part rest
  | b :: rest => if HeaderField.isSpace b then .part (skipLineEnd rest) else .part (b :: rest)
  | [] => .part []

/-! ## Headers of a part -/

def field? (fields : List HeaderField) (name : String) : Option (List UInt8) :=
  (fields.reverse.find? (·.name = name)).map (·.raw)

def contentType? (fields : List HeaderField) : Option MediaValue :=
  (field? fields "Content-Type").bind MediaValue.ofBytes?

def isAttachment (fields : List HeaderField) : Bool :=
  match (field? fields "Content-Disposition").bind MediaValue.ofBytes? with
  | some v => v.type == "attachment"
  | none => false

def encoding (fields : List HeaderField) : Transfer.Encoding :=
  match field? fields "Content-Transfer-Encoding" with
  | some value => .ofName (plainText value)
  | none => .none

def boundary? (fields : List HeaderField) : Option (List UInt8) :=
  match (contentType? fields).bind (·.parameter? "boundary") with
  | some boundary => if boundary = "" then none else some boundary.toUTF8.data.toList
  | none => none

/-! ## Showing parts -/

def isInline (level : Level) (kind : PartKind) (fields : List HeaderField) : Bool :=
  let named := ((contentType? fields).bind (·.parameter? "name")).isSome
  (kind == .plain || kind == .html || kind == .media) && !isAttachment fields &&
    (level.partCount == 1 || (level.container != related && (kind == .media || !named)))

/-- The level once a part has been shown in it: of alternatives further in, the
first to be shown decides in which form the others are wanted. -/
def Level.choose (level : Level) (kind : PartKind) : Level :=
  if !level.inAlternative || (!level.wantsText && !level.wantsHtml) then level
  else if kind = .html then { level with wantsText := false }
  else if kind = .plain then { level with wantsHtml := false }
  else level

def Draft.add (d : Draft) (asHtml asText : Bool) (text : Option String) : Draft :=
  { d with
    html := if asHtml then d.html ++ [text] else d.html
    text := if asText then d.text ++ [text] else d.text }

def showPart (level : Level) (draft : Draft) (kind : PartKind) (fields : List HeaderField)
    (decoded : List UInt8) : Level × Draft :=
  let text := match kind with
    | .plain | .html => some (Text.lossyText decoded)
    | _ => none
  if level.container = alternative then
    (level, draft.add (kind == .html) (kind == .plain) text)
  else if isInline level kind fields then
    let level := level.choose kind
    (level, draft.add level.wantsHtml level.wantsText text)
  else (level, draft)

/-- When one form is missing from a list of alternatives, the other stands for it. -/
def Level.close (level : Level) (d : Draft) : Draft :=
  if level.container = alternative ∧ level.wantsHtml ∧ level.wantsText then
    if d.text.length = level.textBefore then
      { d with text := d.text ++ d.html.drop level.htmlBefore }
    else if d.html.length = level.htmlBefore then
      { d with html := d.html ++ d.text.drop level.textBefore }
    else d
  else d

/-! ## Reading parts -/

/-- Where parts are read: the innermost container, those around it, and the message
whose parts they are. -/
structure Cursor where
  level : Level := {}
  stack : List Frame := []
  draft : Draft := {}

namespace Cursor

def outermost (c : Cursor) : Draft :=
  c.stack.foldl (fun draft frame => frame.draft.getD draft) c.draft

def leaveMessage (c : Cursor) : Cursor :=
  match c.level.container, c.stack with
  | .message, frame :: stack =>
    { level := { frame.level with boundary := c.level.boundary }
      stack
      draft := frame.draft.getD c.draft }
  | _, _ => c

theorem leaveMessage_stack_length (c : Cursor) : c.leaveMessage.stack.length ≤ c.stack.length := by
  unfold leaveMessage
  split
  · next h => simp [h]
  · exact Nat.le_refl _

/-- Ends a multipart. The message stays the one that has been read last. -/
def leaveMultipart (c : Cursor) : Option Cursor :=
  match c.stack with
  | [] => none
  | frame :: stack =>
    some { level := frame.level, stack, draft := c.level.close c.draft }

theorem leaveMultipart_stack_length {c d : Cursor} (h : c.leaveMultipart = some d) :
    d.stack.length < c.stack.length := by
  unfold leaveMultipart at h
  split at h
  · simp at h
  · next hs => cases h; simp [hs]

def seek (c : Cursor) (bytes : List UInt8) : Option (List UInt8) :=
  c.level.boundary.bind fun boundary => (cutAt (boundaryMark boundary) bytes).map (·.2)

/-- Goes on after a boundary: out of the containers that end here. The bytes are
those of the next part, if there is one. -/
def next (c : Cursor) (bytes : List UInt8) : Cursor × Option (List UInt8) :=
  match afterBoundary bytes with
  | .part rest => (c.leaveMessage, some rest)
  | .closed rest =>
    match _h : c.leaveMessage.leaveMultipart with
    | none =>
      let c := c.leaveMessage
      ({ c with draft := c.level.close c.draft }, none)
    | some d =>
      match d.seek rest with
      | some rest => d.next rest
      | none => (d, none)
termination_by c.stack.length
decreasing_by
  exact Nat.lt_of_lt_of_le (leaveMultipart_stack_length (by assumption))
    (leaveMessage_stack_length c)

def enterMultipart (c : Cursor) (subtype : Option String) (boundary : List UInt8) : Cursor where
  level := {
    container := .multipart subtype
    boundary := some boundary
    inAlternative := c.level.inAlternative || subtype == some "alternative"
    wantsHtml := c.level.wantsHtml
    wantsText := c.level.wantsText
    htmlBefore := c.draft.html.length
    textBefore := c.draft.text.length }
  stack := ⟨c.level, none⟩ :: c.stack
  draft := c.draft

/-- Enters a message that is a part and begins `size` bytes before the end; the
boundary ends it too. -/
def enterMessage (c : Cursor) (size : Nat) : Cursor where
  level := { container := .message, boundary := c.level.boundary }
  stack := ⟨{ c.level with boundary := none }, some c.draft⟩ :: c.stack
  draft := { size := some size }

def beginPart (c : Cursor) (fields : List HeaderField) : Cursor :=
  { c with
    level := { c.level with partCount := c.level.partCount + 1 }
    draft := { c.draft with fields := some (c.draft.fields.getD fields) } }

/-- Shows the part whose body and end are given. A body that does not have the
encoding it is said to have is not shown. -/
def showBody (c : Cursor) (kind : PartKind) (fields : List HeaderField) (body : List UInt8)
    (ending : Transfer.End) : Cursor :=
  match Transfer.decode (encoding fields) body ending with
  | none => c
  | some decoded =>
    let (level, draft) := showPart c.level c.draft kind fields decoded
    { c with level, draft }

end Cursor

/-- The multipart that a part opens: its boundary and what follows the first
boundary line. -/
def openMultipart? (fields : List HeaderField) (body : List UInt8) :
    Option (List UInt8 × List UInt8) := do
  let boundary ← boundary? fields
  let (_, after) ← cutAt (boundaryMark boundary) body
  return (boundary, skipLineEnd after)

/-- Reads parts. Each uses up some bytes, so `fuel` of more than their number is
enough. -/
def readParts (fuel : Nat) (c : Cursor) (bytes : List UInt8) : Draft :=
  match fuel with
  | 0 => c.outermost
  | fuel + 1 =>
    match HeaderField.readAll bytes with
    | (_, none) => c.outermost
    | (fields, some body) =>
      let c := c.beginPart fields
      let kind := PartKind.ofContentType (c.level.container == digest) (contentType? fields)
      let opened := match kind with
        | .multipart subtype => (openMultipart? fields body).map (subtype, ·)
        | _ => none
      match opened with
      | some (subtype, boundary, rest) => readParts fuel (c.enterMultipart subtype boundary) rest
      | none =>
        if kind = .message ∧ encoding fields = .none then
          readParts fuel (c.enterMessage body.length) body
        else
          match c.level.boundary with
          | none => (c.showBody kind fields body .message).outermost
          | some boundary =>
            match cutAt (boundaryMark boundary) body with
            | none => c.outermost
            | some (content, after) =>
              match (c.showBody kind fields content .boundary).next after with
              | (c, some rest) => readParts fuel c rest
              | (c, none) => c.outermost

def readDraft (bytes : List UInt8) : Draft :=
  readParts (bytes.length + 1) {} bytes

/-- The texts of a message, up to the first part shown as text that has none. -/
def Draft.texts (d : Draft) : List String :=
  (d.text.takeWhile Option.isSome).filterMap id

/-- The bytes of a field. Those of a message that is a part are looked up in it at
the place that the field has in the whole. -/
def Draft.value (d : Draft) (bytes : List UInt8) (f : HeaderField) : List UInt8 :=
  match d.size with
  | none => f.raw
  | some size =>
    let stop := bytes.length - f.after
    if stop ≤ size then
      ((bytes.drop (bytes.length - size)).take stop).drop (stop - f.raw.length)
    else []

end Body

end MailSieve
