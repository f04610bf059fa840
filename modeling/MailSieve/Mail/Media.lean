import MailSieve.Mail.EncodedWord

/-!
# Media values

The value of a header that says what a part holds or how it is shown: a type,
perhaps a subtype, and parameters, as in `text/plain; charset=utf-8`. A
parameter may be given in numbered pieces (`name*0`, `name*1`) and with
percent escapes (`name*`). A line end stands for a semicolon, except in quotes.
-/

namespace MailSieve

open Text (byte)

structure MediaValue where
  type : String
  subtype : Option String
  parameters : List (String × String)

namespace MediaValue

def parameter? (v : MediaValue) (name : String) : Option String :=
  v.parameters.lookup name

inductive Place
  | type
  | subtype
  | name
  | value
  | quoted
  | comment (outer : Place)
deriving DecidableEq

structure Piece where
  name : String
  index : Nat
  text : String

structure Reader where
  place : Place := .type
  token : List UInt8 := []
  /-- What has been skipped since its last byte; it belongs to the token if that
  goes on. -/
  gap : List UInt8 := []
  capital : Bool := false
  atStart : Bool := true
  escaped : Bool := false
  folded : Bool := false
  type : Option String := none
  subtype : Option String := none
  name : Option String := none
  earlier : Option (List Char) := none
  starred : Bool := false
  percent : Bool := false
  charset : Bool := false
  index : Nat := 0
  parameters : List (String × String) := []
  pieces : List Piece := []

namespace Reader

/-! ## Tokens -/

def extend (r : Reader) (b : UInt8) : Reader :=
  { r with token := r.token ++ r.gap ++ [b], gap := [] }

def skip (r : Reader) (b : UInt8) : Reader :=
  if r.token.isEmpty then r else { r with gap := r.gap ++ [b] }

def read (r : Reader) (b : UInt8) : Reader :=
  { r.extend b with atStart := false, escaped := false }

def clear (r : Reader) : Reader :=
  { r with token := [], gap := [], atStart := true }

def word (r : Reader) : String :=
  let cs := Text.decodeLossy r.token
  String.ofList (if r.capital then Text.lowerChars cs else cs)

def takeName (r : Reader) : Reader :=
  if r.token.isEmpty then r
  else
    let taken := { r.clear with capital := false }
    match r.place with
    | .type => { taken with type := some r.word }
    | .subtype => { taken with subtype := some r.word }
    | _ => { taken with name := some r.word }

def numberOf (token : List Char) : Nat :=
  let digits := match token with
    | '+' :: ds => ds
    | ds => ds
  let n := Text.digitsValue digits
  if digits.all Char.isDigit && n < UInt32.size then n else 0

def takeIndex (r : Reader) : Reader :=
  if r.token.isEmpty then r else { r.clear with index := numberOf (Text.decodeLossy r.token) }

/-! ## Values -/

/-- Undoes percent escapes, unless they are malformed. The mode is what has been
read of one. -/
def unpercent : Transfer.QuotedMode → List UInt8 → Option (List UInt8)
  | _, [] => some []
  | .plain, b :: bs =>
    if b == 37 then unpercent .escape bs else (unpercent .plain bs).map (b :: ·)
  | .escape, b :: bs => (Transfer.hexDigit? b).bind fun high => unpercent (.digit high) bs
  | .digit high, b :: bs => do
    let low ← Transfer.hexDigit? b
    return UInt8.ofNat (high * 16 + low) :: (← unpercent .plain bs)

def valueText (percent : Bool) (text : String) : String :=
  if percent then
    match unpercent .plain text.toUTF8.data.toList with
    | some bytes => Text.lossyText bytes
    | none => text
  else text

def store (r : Reader) (name text : String) : Reader :=
  if !r.starred then { r with name := none, parameters := r.parameters ++ [(name, text)] }
  else
    let text := valueText r.percent text
    let r := { r with name := none, starred := false, percent := false, charset := false }
    if r.index = 0 then { r with parameters := r.parameters ++ [(name, text)] }
    else { r with index := 0, pieces := r.pieces ++ [⟨name, r.index, text⟩] }

def isLineEnd (b : UInt8) : Bool :=
  b == byte '\r' || b == byte '\n'

/-- Ends the value of a parameter; an empty one does not count. -/
def takeValue (r : Reader) : Reader :=
  match r.name with
  | none => r
  | some name =>
    if r.token.isEmpty && r.earlier.isNone then r
    else
      let token := if r.folded then r.token.filter (! isLineEnd ·) else r.token
      let text := String.ofList (r.earlier.getD [] ++ Text.decodeLossy token)
      { (r.store name text).clear with earlier := none, folded := r.folded && r.token.isEmpty }

/-- Ends a part of a value. Outside quotes a space follows it. -/
def takePart (r : Reader) (part : List UInt8) : Reader :=
  if r.token.isEmpty then r
  else
    let space := if r.place = .quoted then [] else [' ']
    { r.clear with earlier := some (r.earlier.getD [] ++ Text.decodeLossy part ++ space) }

def addWord (r : Reader) (word : List Char) : Reader :=
  let r := r.takePart r.token
  { r with earlier := some (r.earlier.getD [] ++ word) }

def takeTag (r : Reader) : Reader :=
  if r.token.isEmpty then r
  else if !r.charset then { r.clear with charset := true }
  else
    let name := r.name.getD "unknown" ++ "-language"
    let tag := Text.decodeLossy r.token
    if (r.parameters.lookup name).isNone then
      { r.clear with parameters := r.parameters ++ [(name, String.ofList tag)] }
    else { r.clear with earlier := some (r.earlier.getD [] ++ '\'' :: tag) }

/-! ## Steps -/

def openComment (r : Reader) : Reader :=
  if r.escaped then { r with escaped := false } else { r with place := .comment r.place }

def isCapital (b : UInt8) : Bool :=
  byte 'A' ≤ b && b ≤ byte 'Z'

def stepName (r : Reader) (b : UInt8) : Reader :=
  if b = byte '/' ∧ r.place = .type then { r.takeName with place := .subtype }
  else if b = byte ';' then { r.takeName with place := .name }
  else if b = byte '*' ∧ r.place = .name then
    if !r.starred then { r.takeName with starred := !r.token.isEmpty }
    else if !r.percent then { r.takeIndex with percent := true }
    else r.clear
  else if b = byte '=' ∧ r.place = .name then
    if r.starred then
      if r.percent then { r.clear with place := .value }
      else { r.takeIndex with percent := r.token.isEmpty, place := .value }
    else if r.token.isEmpty then r
    else { r.takeName with place := .value }
  else if b = byte '"' ∨ b = byte '\\' then r.skip b
  else if b = byte '(' then
    (if r.escaped then r else r.takeName).openComment.skip b
  else { r.read b with capital := r.capital || isCapital b }

def stepValue (r : Reader) (b : UInt8) : Reader :=
  if b = byte ';' ∧ r.place = .value then
    if r.escaped then { r with escaped := false }.skip b
    else { r.takeValue with place := .name }.skip b
  else if b = byte '"' then
    if r.place = .value then { r with place := .quoted, atStart := true }.skip b
    else if r.escaped then r.read b
    else { r.takeValue with place := .name }.skip b
  else if b = byte '\\' then
    if r.escaped then r.read b
    else
      { r.takePart (if r.place = .quoted then r.token ++ r.gap else r.token) with escaped := true }
  else if b = byte '\'' ∧ r.percent ∧ !r.escaped then r.takeTag
  else if b = byte '(' ∧ r.place = .value then
    (if r.escaped then r else r.takeValue).openComment.skip b
  else r.read b

def stepComment (r : Reader) (outer : Place) (b : UInt8) : Reader :=
  if b = byte ')' then { r.clear with place := outer }
  else if b = byte '(' then r.openComment.skip b
  else if b = byte '"' then r.skip b
  else r.read b

/-- Reads a line end; it is the last unless the value goes on. -/
def stepLine (r : Reader) (last : Bool) : Reader :=
  if r.place = .quoted ∧ !last then { r with folded := true }.skip (byte '\n')
  else
    let r := match r.place with
      | .type | .subtype | .name => r.takeName
      | .value | .quoted => r.takeValue
      | .comment _ => r
    if last then r else { r with place := .name, atStart := true }.skip (byte '\n')

def step (r : Reader) (b : UInt8) (last : Bool) : Reader :=
  if HeaderField.isBlank b then
    { (if r.place = .quoted then r.extend b else r.skip b) with atStart := true }
  else if b = byte '\n' then r.stepLine last
  else if b = byte '\r' then r.skip b
  else
    match r.place with
    | .type | .subtype | .name => r.stepName b
    | .value | .quoted => r.stepValue b
    | .comment outer => r.stepComment outer b

def wordAt? (r : Reader) (b : UInt8) (bs : List UInt8) : Option (List Char × List UInt8) :=
  if b = byte '=' ∧ r.atStart ∧ (r.place = .value ∨ r.place = .quoted) then EncodedWord.read bs
  else none

def readAll (r : Reader) : Nat → List UInt8 → Reader
  | _, [] => r
  | skipped + 1, _ :: bs => r.readAll skipped bs
  | 0, b :: bs =>
    match r.wordAt? b bs with
    | some (word, rest) => (r.addWord word).readAll (bs.length - rest.length) bs
    | none => (r.step b bs.isEmpty).readAll 0 bs

/-! ## Pieces -/

def addPiece (p : Piece) : List (String × String) → List (String × String)
  | [] => [(p.name, p.text)]
  | (name, text) :: rest =>
    if name = p.name then (name, text ++ p.text) :: rest else (name, text) :: addPiece p rest

/-- Pieces are joined by their numbers, those of one number by their texts. -/
def Piece.precedes (p q : Piece) : Bool :=
  p.index < q.index || (p.index == q.index && p.text ≤ q.text)

def joined (r : Reader) : List (String × String) :=
  (r.pieces.mergeSort Piece.precedes).foldl (fun ps p => addPiece p ps) r.parameters

end Reader

/-- Reads a header value, which ends with a line end. It needs a type. -/
def ofBytes? (bytes : List UInt8) : Option MediaValue :=
  let r := Reader.readAll {} 0 bytes
  r.type.map fun type => ⟨type, r.subtype, r.joined⟩

end MediaValue

end MailSieve
