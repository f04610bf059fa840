import MailSieve.Mail.Transfer

/-!
# Encoded words

A piece of a header value may stand for text as `=?charset?letter?data?=`, the
letter B meaning base64 and Q a form of quoted-printable. The text is taken to
be UTF-8.
-/

namespace MailSieve

open Text (byte)

namespace EncodedWord

def close? (bs : List UInt8) : Option (List UInt8) :=
  Text.dropStart? [byte '?', byte '='] bs

def prepend (bytes : List UInt8) (read : Option (List UInt8 × List UInt8)) :
    Option (List UInt8 × List UInt8) :=
  read.map fun (more, rest) => (bytes ++ more, rest)

/-- Reads Q data up to its end. An underscore is a space, and a line end that
blanks follow is skipped with them. -/
def readQ (mode : Transfer.QuotedMode) (skipping : Bool) :
    List UInt8 → Option (List UInt8 × List UInt8)
  | [] => none
  | b :: bs =>
    if skipping && HeaderField.isBlank b then readQ mode true bs
    else if b = byte '=' then
      if mode = .plain then readQ .escape false bs else none
    else if b = byte '?' then
      match close? (b :: bs) with
      | some rest => some ([], rest)
      | none => prepend [b] (readQ mode false bs)
    else if b = byte '\n' then
      if bs.head?.any HeaderField.isBlank then readQ mode true bs else none
    else if b = byte '_' then prepend [byte ' '] (readQ mode false bs)
    else if b = byte '\r' then readQ mode false bs
    else
      match mode with
      | .plain => prepend [b] (readQ .plain false bs)
      | .escape => (Transfer.hexDigit? b).bind fun high => readQ (.digit high) false bs
      | .digit high =>
        (Transfer.hexDigit? b).bind fun low =>
          prepend [UInt8.ofNat (high * 16 + low)] (readQ .plain false bs)

/-- Reads B data up to its end, after the digits of an unfinished group. -/
def readB (group : List Nat) : List UInt8 → Option (List UInt8 × List UInt8)
  | [] => none
  | b :: bs =>
    match Transfer.base64Digit? b with
    | some d =>
      if group.length = 3 then prepend (Transfer.base64Bytes (group ++ [d])) (readB [] bs)
      else readB (group ++ [d]) bs
    | none =>
      if b = byte '?' then (close? (b :: bs)).map ([], ·)
      else if b = byte '=' then prepend (Transfer.base64Bytes group) (readB [] bs)
      else if Transfer.isBase64Gap b then readB group bs
      else none

/-- Whether what stands before the letter names a charset, by two bytes at least.
A star after the first byte begins a language. -/
def namesCharset (bs : List UInt8) : Bool :=
  2 ≤ (bs.take 1 ++ (bs.drop 1).takeWhile (· != byte '*')).length && !bs.contains (byte '\n')

def readCharset (bs : List UInt8) : Option (List UInt8) :=
  match bs.span (· != byte '?') with
  | (_, []) => none
  | (charset, _ :: rest) => if namesCharset charset then some rest else none

def readData : List UInt8 → Option (List UInt8 × List UInt8)
  | letter :: mark :: data =>
    if mark != byte '?' then none
    else if letter == byte 'q' || letter == byte 'Q' then readQ .plain false data
    else if letter == byte 'b' || letter == byte 'B' then readB [] data
    else none
  | _ => none

def read (bs : List UInt8) : Option (List Char × List UInt8) := do
  let (bytes, rest) ← readData (← readCharset (← Text.dropStart? [byte '?'] bs))
  return (Text.decodeLossy bytes, rest)

end EncodedWord

structure TextReader where
  text : Option (List Char) := none
  token : List UInt8 := []
  /-- What has been read since its last byte. -/
  gap : List UInt8 := []
  /-- Whether an encoded word was read last, or nothing. -/
  afterWord : Bool := true

namespace TextReader

def endToken (r : TextReader) : TextReader :=
  if r.token.isEmpty then r
  else
    let before := (r.text.map (· ++ [' '])).getD []
    { text := some (before ++ Text.decodeLossy r.token), afterWord := false }

/-- Adds an encoded word; none but other words join it without a space. -/
def addWord (r : TextReader) (word : List Char) : TextReader :=
  let r := r.endToken
  let space := if r.afterWord then [] else [' ']
  { r with text := some (r.text.getD [] ++ space ++ word), afterWord := true }

def step (r : TextReader) (b : UInt8) : TextReader :=
  if b = byte '\n' then r.endToken
  else if HeaderField.isBlank b || b = byte '\r' then
    if r.token.isEmpty then r else { r with gap := r.gap ++ [b] }
  else { r with token := r.token ++ r.gap ++ [b], gap := [] }

def readAll (r : TextReader) : Nat → List UInt8 → TextReader
  | _, [] => r.endToken
  | skip + 1, _ :: bs => r.readAll skip bs
  | 0, b :: bs =>
    match if b = byte '=' then EncodedWord.read bs else none with
    | some (word, rest) => (r.addWord word).readAll (bs.length - rest.length) bs
    | none => (r.step b).readAll 0 bs

end TextReader

def plainText (value : List UInt8) : String :=
  String.ofList ((TextReader.readAll {} 0 value).text.getD [])

end MailSieve
