/-!
# Places in a source text

A position is a line and a column, both counted from one; columns count bytes
of the UTF-8 form. `Position.advance` moves a position over text that has been
read; `LineStarts.position` finds the position of a byte offset by a binary
search in the offsets at which lines begin, and `LineStarts.wordPosition` that
of an offset that is a machine word.
-/

namespace MailSieve

structure Position where
  line : Nat
  column : Nat
deriving DecidableEq, Inhabited

namespace Position

def start : Position := ⟨1, 1⟩

/-- The place of a command or test that was not read from a text. -/
def unknown : Position := ⟨0, 0⟩

def next (p : Position) (c : Char) : Position :=
  if c = '\n' then ⟨p.line + 1, 1⟩ else ⟨p.line, p.column + c.utf8Size⟩

def advance (p : Position) (cs : List Char) : Position :=
  cs.foldl next p

@[simp] theorem advance_nil (p : Position) : p.advance [] = p := rfl

@[simp] theorem advance_cons (p : Position) (c : Char) (cs : List Char) :
    p.advance (c :: cs) = (p.next c).advance cs := rfl

theorem advance_append (p : Position) (cs ds : List Char) :
    p.advance (cs ++ ds) = (p.advance cs).advance ds := by
  simp [advance]

def describe (p : Position) : String :=
  "line " ++ toString p.line ++ ", column " ++ toString p.column

end Position

structure LineStarts where
  offsets : Array Nat

namespace LineStarts

/-- The offsets just after the line feeds of `bytes`, the first byte having
offset `base`. -/
def startsAfter (base : Nat) : List UInt8 → List Nat
  | [] => []
  | b :: bs => if b = 10 then (base + 1) :: startsAfter (base + 1) bs else startsAfter (base + 1) bs

def ofBytes (bytes : List UInt8) : LineStarts :=
  ⟨(0 :: startsAfter 0 bytes).toArray⟩

def ofText (text : String) : LineStarts :=
  ofBytes text.toUTF8.data.toList

/-- Where an offset stands among ascending entries: at one of them, or just before the one that
comes next. -/
inductive Rank
  | found (i : Nat)
  | missing (next : Nat)
deriving DecidableEq

/-- Looks for an offset, given that the entries before `lo` are smaller and those from `hi` on
greater. -/
def search (offsets : Array Nat) (offset lo hi : Nat) (h : hi ≤ offsets.size) : Rank :=
  if hlt : lo < hi then
    let mid := (lo + hi) / 2
    have hmid : mid < offsets.size := by omega
    if offsets[mid] = offset then .found mid
    else if offsets[mid] < offset then search offsets offset (mid + 1) hi h
    else search offsets offset lo mid (by omega)
  else .missing lo
termination_by hi - lo

def rank (starts : LineStarts) (offset : Nat) : Rank :=
  search starts.offsets offset 0 starts.offsets.size (Nat.le_refl _)

/-- The index of the line of a byte offset; one past the end is on the last line. -/
def line (starts : LineStarts) (offset : Nat) : Nat :=
  match starts.rank offset with
  | .found i => i
  | .missing next => next - 1

def position (starts : LineStarts) (offset : Nat) : Position :=
  ⟨starts.line offset + 1, offset - starts.offsets.getD (starts.line offset) 0 + 1⟩

/-- The position of an offset in words of 64 bits. Sums wrap around: in a text without line feeds
the largest offset is in column 0. -/
def wordPosition (starts : LineStarts) (offset : UInt64) : Position :=
  let line := starts.line offset.toNat
  ⟨(line.toUInt64 + 1).toNat, (offset - (starts.offsets.getD line 0).toUInt64 + 1).toNat⟩

end LineStarts

end MailSieve
