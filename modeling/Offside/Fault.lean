import Offside.Position
import Offside.Text.Quoted

/-!
# Lexical faults

A fault is what is wrong with a text; a located fault also says where. Faults of single characters
and of string literals are recovered from. A margin that fits no enclosing block is fatal, since
nothing after it has a certain layout.
-/

namespace Offside

/-- What is wrong. -/
inductive Fault where
  /-- A string literal is not closed on its line. -/
  | unterminatedString (quote : Char)
  /-- A character starts no lexeme. -/
  | unrecognisedCharacter (character : Char)
  /-- A line returns to a width that no enclosing block has. -/
  | inconsistentDedent (width : Nat) (expected : List Nat)
deriving DecidableEq, Repr

namespace Fault

/-- The name of the sort of fault. -/
def name : Fault → String
  | .unterminatedString _ => "UnterminatedString"
  | .unrecognisedCharacter _ => "UnrecognisedCharacter"
  | .inconsistentDedent _ _ => "InconsistentDedent"

/-- One line that says what is wrong. The levels a line could have returned to are left to the tip. -/
def message : Fault → String
  | .unterminatedString quote => "unterminated string literal opened with " ++ Text.quoteChar quote
  | .unrecognisedCharacter character => "unrecognised character: " ++ Text.quoteChar character
  | .inconsistentDedent width _ => s!"inconsistent dedent to width {width}"

/-- Numbers between brackets, with commas between them. -/
def renderWidths (widths : List Nat) : String :=
  "[" ++ ", ".intercalate (widths.map toString) ++ "]"

/-- What to do about it, when there is something to say. -/
def tip? : Fault → Option String
  | .unterminatedString quote =>
    some ("String opened here is never closed, add a matching `" ++ String.singleton quote ++
      "` before the end of the line")
  | .unrecognisedCharacter _ => none
  | .inconsistentDedent width expected =>
    some (s!"Dedent to width {width} does not match any enclosing block, expected one of " ++
      renderWidths expected)

/-- Whether the scan stops at the fault. -/
def isFatal : Fault → Bool
  | .inconsistentDedent _ _ => true
  | _ => false

end Fault

/-- A fault and the place where it was found. -/
structure LocatedFault where
  fault : Fault
  position : Position
deriving DecidableEq, Repr

namespace LocatedFault

/-- The message with the line and column. -/
def render (error : LocatedFault) : String :=
  error.fault.message ++ " at " ++ error.position.render

/-- Whether the scan stops at the fault. -/
def isFatal (error : LocatedFault) : Bool :=
  error.fault.isFatal

/-- One line for all that was found: how many faults there are, and the first of them. -/
def summary (errors : List LocatedFault) : String :=
  s!"{errors.length} lexical error(s), first: " ++ (errors.head?.map render).getD ""

end LocatedFault

end Offside
