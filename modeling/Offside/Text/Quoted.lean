import Offside.Text.DefaultIgnorable
import Offside.Text.GraphemeExtend
import Offside.Text.Unprintable

/-!
# Characters in messages

A message shows a character between single quotes. The single quote itself, the backslash and four
control characters are written as a backslash and a letter; a character that has no printed form, is
left out of a display, or would be drawn onto the quote, is written by its code point; any other stands
for itself.
-/

namespace Offside.Text

/-- The letter that stands for a character after a backslash. -/
def escapeLetter? : Char → Option Char
  | '\x00' => some '0'
  | '\t' => some 't'
  | '\r' => some 'r'
  | '\n' => some 'n'
  | '\'' => some '\''
  | '\\' => some '\\'
  | _ => none

/-- Whether a character cannot be seen as itself between two quotes. -/
def isHidden (c : Char) : Bool :=
  isGraphemeExtend c || isDefaultIgnorable c || isUnprintable c

/-- A character as it is written between the quotes. -/
def escapeChar (c : Char) : List Char :=
  match escapeLetter? c with
  | some letter => ['\\', letter]
  | none =>
    if isHidden c then
      ['\\', 'u', '\x7b'] ++ Nat.toDigits 16 c.toNat ++ ['\x7d']
    else [c]

/-- A character between single quotes. -/
def quoteChar (c : Char) : String :=
  String.ofList ('\'' :: escapeChar c ++ ['\''])

end Offside.Text
