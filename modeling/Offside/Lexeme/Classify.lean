import Offside.Lexeme.Rule
import Offside.Token

/-!
# Classifying the front of a text

The first rule that takes something wins. A text whose first character no rule takes gives that
character as a fault, so every text but the empty one starts with a lexeme, and a lexeme is never
empty.

Cutting a whole text into lexemes is repeating this on what is left. No layout is involved: line
ends and margins are lexemes like any other here.
-/

namespace Offside

/-- The lexeme at the front of a text, by the first of some rules that takes one. -/
def classifyBy (rules : List Rule) : List Char → Option Lexeme
  | [] => none
  | c :: cs =>
    some ((rules.findSome? (Rule.apply (c :: cs))).getD ⟨.fault (.unrecognisedCharacter c), [c]⟩)

/-- The lexeme at the front of a text. -/
def classify (window : List Char) : Option Lexeme :=
  classifyBy Rule.priority window

/-- The token that the front of a text yields on its own: a line end counts as one, and blanks,
comments and faults yield none. -/
def tokenAt? (window : List Char) (start : Position) : Option Token :=
  match classify window with
  | some ⟨.token kind, text⟩ => some (.spanning kind text start)
  | some ⟨.lineEnd, text⟩ => some (.spanning .newline text start)
  | _ => none

end Offside
