/-!
# Reading UTF-8

Each longest beginning of a character that cannot be completed is read as the
replacement character.
-/

namespace MailSieve.Text

def replacement : Char := Char.ofNat 0xFFFD

def isContinuation (b : UInt8) : Bool :=
  0x80 ≤ b && b ≤ 0xBF

def isSecondOfThree (a b : UInt8) : Bool :=
  if a == 0xE0 then 0xA0 ≤ b && b ≤ 0xBF
  else if a == 0xED then 0x80 ≤ b && b ≤ 0x9F
  else isContinuation b

def isSecondOfFour (a b : UInt8) : Bool :=
  if a == 0xF0 then 0x90 ≤ b && b ≤ 0xBF
  else if a == 0xF4 then 0x80 ≤ b && b ≤ 0x8F
  else isContinuation b

/-- The character whose first byte has the value bits `lead` and whose further
bytes are `rest`. -/
def assemble (lead : Nat) (rest : List UInt8) : Char :=
  Char.ofNat (rest.foldl (fun n b => n * 64 + (b.toNat - 0x80)) lead)

/-- The first character of `a :: s` and how many bytes of `s` it takes up. -/
def decodeFirst (a : UInt8) (s : List UInt8) : Char × Nat :=
  if a < 0x80 then (Char.ofNat a.toNat, 0)
  else if 0xC2 ≤ a && a ≤ 0xDF then
    match s with
    | b :: _ => if isContinuation b then (assemble (a.toNat - 0xC0) [b], 1) else (replacement, 0)
    | [] => (replacement, 0)
  else if 0xE0 ≤ a && a ≤ 0xEF then
    match s with
    | b :: c :: _ =>
      if !isSecondOfThree a b then (replacement, 0)
      else if !isContinuation c then (replacement, 1)
      else (assemble (a.toNat - 0xE0) [b, c], 2)
    | [b] => (replacement, if isSecondOfThree a b then 1 else 0)
    | [] => (replacement, 0)
  else if 0xF0 ≤ a && a ≤ 0xF4 then
    match s with
    | b :: c :: d :: _ =>
      if !isSecondOfFour a b then (replacement, 0)
      else if !isContinuation c then (replacement, 1)
      else if !isContinuation d then (replacement, 2)
      else (assemble (a.toNat - 0xF0) [b, c, d], 3)
    | [b, c] =>
      if !isSecondOfFour a b then (replacement, 0)
      else (replacement, if isContinuation c then 2 else 1)
    | [b] => (replacement, if isSecondOfFour a b then 1 else 0)
    | [] => (replacement, 0)
  else (replacement, 0)

def decodeLossy : List UInt8 → List Char
  | [] => []
  | a :: s => (decodeFirst a s).1 :: decodeLossy (s.drop (decodeFirst a s).2)
termination_by s => s.length
decreasing_by
  simp only [List.length_drop, List.length_cons]
  omega

def lossyText (bytes : List UInt8) : String :=
  String.ofList (decodeLossy bytes)

end MailSieve.Text
