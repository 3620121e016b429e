import Offside.Text.Basic

/-!
# Lines of a text

A text is cut after every line end, which stays with the line it ends; only the last line may lack
one. A byte index is then found in the line whose bytes it is among.

The index just past a text belongs to its last line when that line has no end, and otherwise to an
empty line after it. Indices beyond that have no line. An index inside a character is not refused.
-/

namespace Offside.Text

/-- The lines of a text, each with its line end; a pair of line end characters is not split. -/
def splitLines : List Char → List (List Char)
  | [] => []
  | '\r' :: '\n' :: cs => ['\r', '\n'] :: splitLines cs
  | c :: cs =>
    if isLineEnd c then [c] :: splitLines cs
    else
      match splitLines cs with
      | [] => [[c]]
      | line :: lines => (c :: line) :: lines

/-- Whether a line has a line end, given that it is a line. -/
def isEnded (line : List Char) : Bool :=
  line.getLast?.any isLineEnd

/-- A line of a text and a place in it. -/
structure LineView where
  /-- The number of the line, counted from one. -/
  number : Nat
  /-- The line with its line end. -/
  text : List Char
  /-- The bytes of the line in front of the place. -/
  offset : Nat
deriving DecidableEq, Repr

/-- Find a byte index in lines that are numbered from `number` and start at index zero. -/
def locate (number index : Nat) : List (List Char) → Option LineView
  | [] => if index = 0 then some ⟨number, [], 0⟩ else none
  | line :: lines =>
    if index < byteLength line ∨ (index = byteLength line ∧ ¬ isEnded line) then
      some ⟨number, line, index⟩
    else
      locate (number + 1) (index - byteLength line) lines

/-- The line of a byte index, or nothing when the index is beyond the text. -/
def lineAt? (content : List Char) (index : Nat) : Option LineView :=
  locate 1 index (splitLines content)

example : lineAt? "ab\r\nc".toList 4 = some ⟨2, ['c'], 0⟩ := by decide

example : lineAt? "ab\n".toList 3 = some ⟨2, [], 0⟩ := by decide

end Offside.Text
