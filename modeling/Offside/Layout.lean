/-!
# Margins and blocks

The blanks at the start of a line give it a width, and the widths of the open blocks decide what the
line does to them: a wider line opens a block, any other closes the blocks that are wider than it.
After that it has to be as wide as the innermost block that is left.

Open blocks are listed by width, innermost first. The outermost level has width zero, cannot be
closed, and is not in the list.
-/

namespace Offside

/-- A tab widens a margin to the next multiple of this. -/
def tabWidth : Nat := 8

/-- The width of a margin after one more blank. A form feed starts the margin over. -/
def widen (width : Nat) (c : Char) : Nat :=
  if c == '\t' then (width / tabWidth + 1) * tabWidth
  else if c == '\x0c' then 0
  else width + 1

/-- The width of the blanks at the start of a line. -/
def indentWidth (margin : List Char) : Nat :=
  margin.foldl widen 0

/-- The width of the innermost open block. -/
def innermost (blocks : List Nat) : Nat :=
  blocks.headD 0

/-- The widths a line can return to, outermost first. -/
def levels (blocks : List Nat) : List Nat :=
  0 :: blocks.reverse

/-- What a line does to the open blocks. -/
inductive Shift where
  /-- It opens a block of its own width. -/
  | opens
  /-- It closes some blocks, or none, and goes on in the innermost of those it keeps. -/
  | settles (closed kept : List Nat)
  /-- It closes some blocks and is wider than the innermost of those it keeps. -/
  | misfits (closed kept : List Nat)
deriving DecidableEq, Repr

/-- What a line of a width does to the open blocks. -/
def shift (blocks : List Nat) (width : Nat) : Shift :=
  let closed := blocks.takeWhile (width < ·)
  let kept := blocks.dropWhile (width < ·)
  if innermost blocks < width then .opens
  else if innermost kept = width then .settles closed kept
  else .misfits closed kept

/-- A character that is no tab or form feed widens a margin by one. -/
theorem widen_of_ne {c : Char} (htab : c ≠ '\t') (hfeed : c ≠ '\x0c') (width : Nat) : widen width c = width + 1 := by
  simp [widen, htab, hfeed]

/-- Spaces widen a margin by their number. -/
theorem foldl_widen_spaces (count width : Nat) : (List.replicate count ' ').foldl widen width = width + count := by
  induction count generalizing width with
  | zero => rfl
  | succ count ih =>
    rw [List.replicate_succ, List.foldl_cons, ih, widen_of_ne (by decide) (by decide)]
    omega

theorem indentWidth_append (margin more : List Char) :
    indentWidth (margin ++ more) = more.foldl widen (indentWidth margin) :=
  List.foldl_append

example : indentWidth "  \t".toList = 8 ∧ indentWidth "\t  ".toList = 10 := by decide

example : shift [8, 4] 4 = .settles [8] [4] ∧ shift [8, 4] 6 = .misfits [8] [4] := by decide

end Offside
