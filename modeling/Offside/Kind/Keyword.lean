/-!
# Keywords

The words that are reserved, each with its spelling in source text and its name in listings. Only a
whole word is a keyword, and its case matters.
-/

namespace Offside

/-- The reserved words. -/
inductive Keyword where
  | kwIf | kwElse | kwWhile | kwFor | kwDef | kwClass | kwReturn | kwImport | kwFrom | kwAs
  | kwTry | kwExcept | kwFinally | kwRaise
deriving DecidableEq, Repr

namespace Keyword

/-- Every keyword. -/
def all : List Keyword :=
  [.kwIf, .kwElse, .kwWhile, .kwFor, .kwDef, .kwClass, .kwReturn, .kwImport, .kwFrom, .kwAs,
   .kwTry, .kwExcept, .kwFinally, .kwRaise]

/-- The word itself. -/
def spelling : Keyword → String
  | .kwIf => "if"
  | .kwElse => "else"
  | .kwWhile => "while"
  | .kwFor => "for"
  | .kwDef => "def"
  | .kwClass => "class"
  | .kwReturn => "return"
  | .kwImport => "import"
  | .kwFrom => "from"
  | .kwAs => "as"
  | .kwTry => "try"
  | .kwExcept => "except"
  | .kwFinally => "finally"
  | .kwRaise => "raise"

/-- The name in listings. -/
def name : Keyword → String
  | .kwIf => "IF"
  | .kwElse => "ELSE"
  | .kwWhile => "WHILE"
  | .kwFor => "FOR"
  | .kwDef => "DEF"
  | .kwClass => "CLASS"
  | .kwReturn => "RETURN"
  | .kwImport => "IMPORT"
  | .kwFrom => "FROM"
  | .kwAs => "AS"
  | .kwTry => "TRY"
  | .kwExcept => "EXCEPT"
  | .kwFinally => "FINALLY"
  | .kwRaise => "RAISE"

/-- The keyword that a whole text spells. -/
def ofText? (text : List Char) : Option Keyword :=
  all.find? fun k => k.spelling.toList == text

/-- Looking a text up undoes spelling, and nothing else is found. -/
theorem ofText?_eq_some_iff {text : List Char} {k : Keyword} :
    ofText? text = some k ↔ text = k.spelling.toList := by
  constructor
  · intro h
    have hspelling := List.find?_some h
    exact (beq_iff_eq.1 hspelling).symm
  · rintro rfl
    cases k <;> decide

end Keyword

end Offside
