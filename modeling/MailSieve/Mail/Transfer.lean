import MailSieve.Mail.Header

/-!
# Transfer encodings

The bytes that the body of a part stands for. A body ends with the message or
where the boundary of its multipart is found; the end tells which, as the line
end before a boundary does not belong to the body.
-/

namespace MailSieve.Transfer

inductive Encoding
  | none
  | base64
  | quotedPrintable
deriving DecidableEq

def Encoding.ofName (name : String) : Encoding :=
  if Text.sameFolded name "base64" then .base64
  else if Text.sameFolded name "quoted-printable" then .quotedPrintable
  else .none

inductive End
  | message
  | boundary
deriving DecidableEq

def hyphen : UInt8 := 45

def dropLineEnd (bytes : List UInt8) : List UInt8 :=
  match bytes.reverse with
  | 10 :: 13 :: rest => rest.reverse
  | 10 :: rest => rest.reverse
  | _ => bytes

/-! ## Base64 -/

def base64Digit? (b : UInt8) : Option Nat :=
  let n := b.toNat
  if 65 ≤ n && n ≤ 90 then some (n - 65)
  else if 97 ≤ n && n ≤ 122 then some (n - 71)
  else if 48 ≤ n && n ≤ 57 then some (n + 4)
  else if n = 43 then some 62
  else if n = 47 then some 63
  else none

def base64Bytes (digits : List Nat) : List UInt8 :=
  match digits with
  | [a, b, c, d] =>
    [UInt8.ofNat (a * 4 + b / 16), UInt8.ofNat (b % 16 * 16 + c / 4), UInt8.ofNat (c % 4 * 64 + d)]
  | [a, b, c] => [UInt8.ofNat (a * 4 + b / 16), UInt8.ofNat (b % 16 * 16 + c / 4)]
  | [a, b] => [UInt8.ofNat (a * 4 + b / 16)]
  | [a] => [UInt8.ofNat (a * 4)]
  | _ => []

def isBase64Gap (b : UInt8) : Bool :=
  HeaderField.isBlank b || b == 10 || b == 13

/-- Decodes base64 after the digits of an unfinished group. Blanks, line ends and
single hyphens are skipped, two hyphens in a row are refused, padding ends a
group, and an unfinished group at the end is lost. -/
def base64 (group : List Nat) (afterHyphen : Bool) : List UInt8 → Option (List UInt8)
  | [] => some []
  | b :: bs =>
    match base64Digit? b with
    | some d =>
      if group.length = 3 then (base64 [] false bs).map (base64Bytes (group ++ [d]) ++ ·)
      else base64 (group ++ [d]) false bs
    | none =>
      if b == 61 then (base64 [] false bs).map (base64Bytes group ++ ·)
      else if isBase64Gap b then base64 group false bs
      else if b == hyphen && !afterHyphen then base64 group true bs
      else none

/-! ## Quoted-printable -/

def hexDigit? (b : UInt8) : Option Nat :=
  let n := b.toNat
  if 48 ≤ n && n ≤ 57 then some (n - 48)
  else if 65 ≤ n && n ≤ 70 then some (n - 55)
  else if 97 ≤ n && n ≤ 102 then some (n - 87)
  else none

inductive QuotedMode
  | plain
  | escape
  | digit (high : Nat)
deriving DecidableEq

structure QuotedReader where
  mode : QuotedMode := .plain
  written : List UInt8 := []
  /-- Blanks after them, the last one first; they are lost before a line end. -/
  blanks : List UInt8 := []
  returns : Bool := false

namespace QuotedReader

def lineEnd (r : QuotedReader) : List UInt8 :=
  if r.returns then [10, 13] else [10]

def output (r : QuotedReader) : List UInt8 :=
  r.blanks ++ r.written

def write (r : QuotedReader) (b : UInt8) : QuotedReader :=
  { r with mode := .plain, written := b :: r.output, blanks := [] }

def step (r : QuotedReader) (b : UInt8) : Option QuotedReader :=
  if b == 61 then
    if r.mode = .plain then some { r with mode := .escape } else none
  else if b == 10 then
    if r.mode = .escape then some { r with mode := .plain, written := r.output, blanks := [] }
    else some { r with written := r.lineEnd ++ r.written, blanks := [] }
  else if b == 13 then some { r with returns := true }
  else
    match r.mode with
    | .plain =>
      if HeaderField.isSpace b then some { r with blanks := b :: r.blanks } else some (r.write b)
    | .escape =>
      match hexDigit? b with
      | some high => some { r with mode := .digit high }
      | none => if HeaderField.isSpace b then some r else none
    | .digit high => (hexDigit? b).map fun low => r.write (UInt8.ofNat (high * 16 + low))

def readAll (r : QuotedReader) : List UInt8 → Option QuotedReader
  | [] => some r
  | b :: bs => (r.step b).bind fun r => r.readAll bs

/-- What has been written when a boundary follows. The line end before it is taken
back, as is the same number of bytes when an equals sign has hidden that line
end; if there are fewer, nothing is taken back and a hyphen remains. -/
def atBoundary (r : QuotedReader) (afterLineEnd : Bool) : List UInt8 :=
  if !afterLineEnd then r.output
  else if r.output.length < r.lineEnd.length then hyphen :: r.output
  else r.output.drop r.lineEnd.length

end QuotedReader

def quotedPrintable (bytes : List UInt8) (ending : End) : Option (List UInt8) :=
  match QuotedReader.readAll {} bytes, ending with
  | none, _ => none
  | some r, .message => some r.output.reverse
  | some r, .boundary =>
    if r.mode = .plain then some (r.atBoundary (bytes.getLast? == some 10)).reverse else none

def decode (encoding : Encoding) (bytes : List UInt8) (ending : End) : Option (List UInt8) :=
  match encoding, ending with
  | .none, .message => some bytes
  | .none, .boundary => some (dropLineEnd bytes)
  | .base64, .message => base64 [] false bytes
  | .base64, .boundary => base64 [] false (bytes ++ [hyphen])
  | .quotedPrintable, ending => quotedPrintable bytes ending

end MailSieve.Transfer
