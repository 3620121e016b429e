import Offside.Kind
import Offside.Position

/-!
# Tokens

A token is a kind, the text it was read from, and where that text starts and stops. Building a token
checks nothing; whether the text has the shape that the kind asks for is a separate question.

Two tokens read the same when kind, text, start line and start column agree. Where they stop and
which bytes they cover play no part in that.
-/

namespace Offside

/-- A classified piece of source text. -/
structure Token where
  kind : Kind
  text : List Char
  start : Position
  /-- The place just past the text. -/
  stop : Position
deriving DecidableEq, Repr

namespace Token

/-- The token that covers `text` from `start` on. -/
def spanning (kind : Kind) (text : List Char) (start : Position) : Token :=
  ⟨kind, text, start, start.advanceOver text⟩

/-- The token of a kind that stands for no text. -/
def synthetic (kind : Kind) (position : Position) : Token :=
  ⟨kind, [], position, position⟩

/-- The token of a name, which may be reserved. -/
def ofWord (text : List Char) (start : Position) : Token :=
  spanning (.ofWord text) text start

/-- The token of a text that spells an operator. -/
def ofOperator? (text : List Char) (start : Position) : Option Token :=
  (Operator.ofText? text).map fun symbol => spanning (.operator symbol) text start

/-- The token of a text that spells a delimiter. -/
def ofDelimiter? (text : List Char) (start : Position) : Option Token :=
  (Delimiter.ofText? text).map fun symbol => spanning (.delimiter symbol) text start

/-- Whether two tokens read the same. -/
def readsAs (a b : Token) : Bool :=
  a.kind == b.kind && a.text == b.text && a.start.line == b.start.line &&
    a.start.column == b.start.column

/-- Tokens read the same that have the same kind and text and start on the same line and in the same column. -/
theorem readsAs_iff {a b : Token} : a.readsAs b = true ↔
    a.kind = b.kind ∧ a.text = b.text ∧ a.start.line = b.start.line ∧ a.start.column = b.start.column := by
  simp [readsAs, and_assoc]

/-- Whether a token is of a kind and, when a text is given, has that text. -/
def hasForm (token : Token) (kind : Kind) (text? : Option (List Char)) : Bool :=
  token.kind == kind && text?.all (token.text == ·)

/-- The token in a listing, its text as it stands in the source. -/
def render (token : Token) : String :=
  "Token(" ++ token.kind.name ++ ", '" ++ String.ofList token.text ++ "' @ " ++
    token.start.render ++ ")"

/-! ### Shapes -/

/-- Digits, or digits on both sides of a point. -/
def isNumeral (text : List Char) : Bool :=
  !(text.takeWhile Char.isDigit).isEmpty &&
    match text.dropWhile Char.isDigit with
    | [] => true
    | c :: fraction => c == '.' && !fraction.isEmpty && fraction.all Char.isDigit

/-- A name: a letter or underscore, then letters, digits and underscores. -/
def isName : List Char → Bool
  | [] => false
  | c :: cs => Text.isNameStart c && cs.all Text.isNameChar

/-- A text between two equal quotes, whatever is in it. -/
def isQuoted : List Char → Bool
  | [] => false
  | c :: cs => Text.isQuote c && cs.getLast? == some c

/-- Whether the text has the shape that the kind asks for. Only numbers, strings and names that are
not reserved have one. -/
def isWellShaped (token : Token) : Bool :=
  match token.kind with
  | .number => isNumeral token.text
  | .string => isQuoted token.text
  | .identifier => isName token.text
  | _ => true

end Token

end Offside
