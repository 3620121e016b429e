import Offside.Text.Basic

/-!
# Positions in a source text

A position has a line counted from one, a column in characters counted from zero, and an index in
UTF-8 bytes. A line feed ends a line, and so does a carriage return unless a line feed follows it,
so the pair of both counts as one line end.

Advancing over a text looks one character ahead and no further: the last character of a text is
advanced over as if the input ended there. Advancing over two halves can therefore count a line end
more than advancing over the whole, when the cut falls inside a pair.
-/

namespace Offside

/-- A place in a source text. -/
structure Position where
  line : Nat
  column : Nat
  index : Nat
deriving DecidableEq, Repr

namespace Position

/-- The place of the first character of any text. -/
def start : Position := ⟨1, 0, 0⟩

instance : Inhabited Position := ⟨start⟩

/-- Whether `c` ends a line, given the character after it. -/
def endsLine (c : Char) (next : Option Char) : Bool :=
  c == '\n' || (c == '\r' && next != some '\n')

/-- The place just past `c`, given the character after it. -/
def advanceBefore (p : Position) (c : Char) (next : Option Char) : Position :=
  if endsLine c next then ⟨p.line + 1, 0, p.index + c.utf8Size⟩
  else ⟨p.line, p.column + 1, p.index + c.utf8Size⟩

/-- The place just past `c` alone, where a carriage return is taken for the first half of a pair. -/
def advance (p : Position) (c : Char) : Position :=
  p.advanceBefore c (some '\n')

/-- The place just past a text, its characters taken in order. -/
def advanceOver (p : Position) : List Char → Position
  | [] => p
  | c :: cs => (p.advanceBefore c cs.head?).advanceOver cs

/-- The text of a position in messages. -/
def render (p : Position) : String :=
  s!"line {p.line}, column {p.column}"

@[simp] theorem advanceOver_nil (p : Position) : p.advanceOver [] = p := rfl

@[simp] theorem advanceOver_cons (p : Position) (c : Char) (cs : List Char) :
    p.advanceOver (c :: cs) = (p.advanceBefore c cs.head?).advanceOver cs := rfl

@[simp] theorem index_advanceBefore (p : Position) (c : Char) (next : Option Char) :
    (p.advanceBefore c next).index = p.index + c.utf8Size := by
  unfold advanceBefore
  split <;> rfl

/-- The index grows by the byte length, wherever the lines end. -/
@[simp] theorem index_advanceOver (p : Position) (text : List Char) :
    (p.advanceOver text).index = p.index + Text.byteLength text := by
  induction text generalizing p with
  | nil => simp
  | cons c cs ih => simp [ih, Nat.add_assoc]

end Position

end Offside
