/-!
# Delimiters

Brackets and separators, each with its spelling in source text and its name in listings. Brackets
are not matched with each other here: one that closes is the same as any other that does.
-/

namespace Offside

/-- Brackets and separators, all of one character. -/
inductive Delimiter where
  | leftParen | rightParen | leftBrace | rightBrace | leftBracket | rightBracket | comma | dot
  | colon | semicolon
deriving DecidableEq, Repr

namespace Delimiter

/-- Every delimiter. -/
def all : List Delimiter :=
  [.leftParen, .rightParen, .leftBrace, .rightBrace, .leftBracket, .rightBracket, .comma, .dot,
   .colon, .semicolon]

/-- The character of the delimiter. -/
def spelling : Delimiter → String
  | .leftParen => "("
  | .rightParen => ")"
  | .leftBrace => "\x7b"
  | .rightBrace => "\x7d"
  | .leftBracket => "["
  | .rightBracket => "]"
  | .comma => ","
  | .dot => "."
  | .colon => ":"
  | .semicolon => ";"

/-- The name in listings. -/
def name : Delimiter → String
  | .leftParen => "LPAREN"
  | .rightParen => "RPAREN"
  | .leftBrace => "LBRACE"
  | .rightBrace => "RBRACE"
  | .leftBracket => "LBRACKET"
  | .rightBracket => "RBRACKET"
  | .comma => "COMMA"
  | .dot => "DOT"
  | .colon => "COLON"
  | .semicolon => "SEMICOLON"

/-- The delimiter that a whole text spells. -/
def ofText? (text : List Char) : Option Delimiter :=
  all.find? fun k => k.spelling.toList == text

/-- Whether the delimiter opens a bracket. -/
def opens : Delimiter → Bool
  | .leftParen | .leftBrace | .leftBracket => true
  | _ => false

/-- Whether the delimiter closes a bracket. -/
def closes : Delimiter → Bool
  | .rightParen | .rightBrace | .rightBracket => true
  | _ => false

/-- Looking a text up undoes spelling, and nothing else is found. -/
theorem ofText?_eq_some_iff {text : List Char} {k : Delimiter} :
    ofText? text = some k ↔ text = k.spelling.toList := by
  constructor
  · intro h
    have hspelling := List.find?_some h
    exact (beq_iff_eq.1 hspelling).symm
  · rintro rfl
    cases k <;> decide

/-- A delimiter is not spelled by the empty text. -/
theorem ne_nil_of_ofText? {text : List Char} {k : Delimiter} (h : ofText? text = some k) : text ≠ [] := by
  rw [ofText?_eq_some_iff.1 h]
  cases k <;> decide

end Delimiter

end Offside
