import MailSieve.Text.Ascii
import MailSieve.Text.Blank
import MailSieve.Text.Search
import MailSieve.Text.Utf8

/-!
# Header fields

The fields at the start of a message or part: a name, a colon and a value that
goes on over lines which begin with a space or tab. A blank line ends them.
-/

namespace MailSieve

structure HeaderField where
  /-- The name, in the usual spelling when it is a well-known one. -/
  name : String
  raw : List UInt8
  /-- How many bytes follow them. -/
  after : Nat

namespace HeaderField

def lineFeed : UInt8 := 10

def colon : UInt8 := 58

def isBlank (b : UInt8) : Bool :=
  b == 32 || b == 9

def isSpace (b : UInt8) : Bool :=
  isBlank b || b == 10 || b == 12 || b == 13

def knownNames : List String := [
  "Subject", "From", "To", "Cc", "Date", "Bcc", "Reply-To", "Sender", "Comments", "In-Reply-To",
  "Keywords", "Received", "Message-ID", "References", "Return-Path", "MIME-Version",
  "Content-Description", "Content-ID", "Content-Language", "Content-Location",
  "Content-Transfer-Encoding", "Content-Type", "Content-Disposition", "Resent-To", "Resent-From",
  "Resent-Bcc", "Resent-Cc", "Resent-Sender", "Resent-Date", "Resent-Message-ID", "List-Archive",
  "List-Help", "List-ID", "List-Owner", "List-Post", "List-Subscribe", "List-Unsubscribe"]

def spelling (name : String) : String :=
  (knownNames.find? (Text.sameFolded name)).getD name

/-- Cuts a value after the first line feed that no space or tab follows. -/
def cutValue : List UInt8 → List UInt8 × List UInt8
  | [] => ([], [])
  | b :: bs =>
    if b == lineFeed && !(bs.head?.any isBlank) then ([b], bs)
    else
      let (value, rest) := cutValue bs
      (b :: value, rest)

theorem cutValue_rest_length (bs : List UInt8) : (cutValue bs).2.length ≤ bs.length := by
  induction bs with
  | nil => simp [cutValue]
  | cons b bs ih =>
    unfold cutValue
    split
    · simp
    · exact Nat.le_succ_of_le ih

inductive Name
  | named (name : List UInt8) (rest : List UInt8)
  | skipped (rest : List UInt8)
  | ended (name : List UInt8)

/-- Reads a name after the bytes `name` of it. Colons and spaces before it are
skipped. -/
def readName (name : List UInt8) : List UInt8 → Name
  | [] => .ended name
  | b :: bs =>
    if b == lineFeed then .skipped bs
    else if b == colon then
      if name.isEmpty then readName name bs else .named name bs
    else if name.isEmpty && isSpace b then readName name bs
    else readName (name ++ [b]) bs

theorem readName_named_length {name name' : List UInt8} {bs rest : List UInt8}
    (h : readName name bs = .named name' rest) : rest.length < bs.length := by
  fun_induction readName name bs with
  | case1 => simp at h
  | case2 => simp at h
  | case3 _ b bs _ _ _ ih => exact Nat.lt_succ_of_lt (ih h)
  | case4 => cases h; simp
  | case5 _ b bs _ _ _ ih => exact Nat.lt_succ_of_lt (ih h)
  | case6 _ b bs _ _ _ ih => exact Nat.lt_succ_of_lt (ih h)

theorem readName_skipped_length {name : List UInt8} {bs rest : List UInt8}
    (h : readName name bs = .skipped rest) : rest.length < bs.length := by
  fun_induction readName name bs with
  | case1 => simp at h
  | case2 => cases h; simp
  | case3 _ b bs _ _ _ ih => exact Nat.lt_succ_of_lt (ih h)
  | case4 => simp at h
  | case5 _ b bs _ _ _ ih => exact Nat.lt_succ_of_lt (ih h)
  | case6 _ b bs _ _ _ ih => exact Nat.lt_succ_of_lt (ih h)

def make (name raw : List UInt8) (after : Nat) : HeaderField :=
  ⟨spelling (Text.lossyText (Text.dropEndWhile isSpace name)), raw, after⟩

/-- The fields at the start of `bytes` and what follows the blank line that ends
them, if there is one. -/
def readAll (bytes : List UInt8) : List HeaderField × Option (List UInt8) :=
  match bytes with
  | [] => ([], none)
  | b :: bs =>
    if b == lineFeed then ([], some bs)
    else if isSpace b then readAll bs
    else
      match _h : readName [] (b :: bs) with
      | .ended [] => ([], none)
      | .ended name => ([make name [] 0], none)
      | .skipped rest => readAll rest
      | .named name rest =>
        let (fields, body) := readAll (cutValue rest).2
        (make name (cutValue rest).1 (cutValue rest).2.length :: fields, body)
termination_by bytes.length
decreasing_by
  · simp
  · exact readName_skipped_length (by assumption)
  · exact Nat.lt_of_le_of_lt (cutValue_rest_length _) (readName_named_length (by assumption))

end HeaderField

end MailSieve
