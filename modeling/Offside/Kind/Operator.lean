/-!
# Operators

The operators, each with its spelling in source text and its name in listings. Some begin with
another operator, so a text is not cut into operators by looking them up alone.
-/

namespace Offside

/-- The operators, of one or two characters. -/
inductive Operator where
  | plus | minus | multiply | divide | modulo | power | assign | plusAssign | minusAssign
  | equals | notEquals | greater | less | greaterEqual | lessEqual
deriving DecidableEq, Repr

namespace Operator

/-- Every operator. -/
def all : List Operator :=
  [.plus, .minus, .multiply, .divide, .modulo, .power, .assign, .plusAssign, .minusAssign,
   .equals, .notEquals, .greater, .less, .greaterEqual, .lessEqual]

/-- The characters of the operator. -/
def spelling : Operator → String
  | .plus => "+"
  | .minus => "-"
  | .multiply => "*"
  | .divide => "/"
  | .modulo => "%"
  | .power => "**"
  | .assign => "="
  | .plusAssign => "+="
  | .minusAssign => "-="
  | .equals => "=="
  | .notEquals => "!="
  | .greater => ">"
  | .less => "<"
  | .greaterEqual => ">="
  | .lessEqual => "<="

/-- The name in listings. -/
def name : Operator → String
  | .plus => "PLUS"
  | .minus => "MINUS"
  | .multiply => "MULTIPLY"
  | .divide => "DIVIDE"
  | .modulo => "MODULO"
  | .power => "POWER"
  | .assign => "ASSIGN"
  | .plusAssign => "PLUS_ASSIGN"
  | .minusAssign => "MINUS_ASSIGN"
  | .equals => "EQUALS"
  | .notEquals => "NOT_EQUALS"
  | .greater => "GREATER"
  | .less => "LESS"
  | .greaterEqual => "GREATER_EQUAL"
  | .lessEqual => "LESS_EQUAL"

/-- The operator that a whole text spells. -/
def ofText? (text : List Char) : Option Operator :=
  all.find? fun k => k.spelling.toList == text

/-- Looking a text up undoes spelling, and nothing else is found. -/
theorem ofText?_eq_some_iff {text : List Char} {k : Operator} :
    ofText? text = some k ↔ text = k.spelling.toList := by
  constructor
  · intro h
    have hspelling := List.find?_some h
    exact (beq_iff_eq.1 hspelling).symm
  · rintro rfl
    cases k <;> decide

/-- An operator is not spelled by the empty text. -/
theorem ne_nil_of_ofText? {text : List Char} {k : Operator} (h : ofText? text = some k) : text ≠ [] := by
  rw [ofText?_eq_some_iff.1 h]
  cases k <;> decide

end Operator

end Offside
