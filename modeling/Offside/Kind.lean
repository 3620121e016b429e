import Offside.Kind.Delimiter
import Offside.Kind.Keyword
import Offside.Kind.Operator

/-!
# Kinds of tokens

A kind is a keyword, an operator, a delimiter, or one of the kinds without a fixed spelling: names,
literals, line ends, and the tokens that layout puts in without any source text.

No two kinds have the same name in listings, so a kind can be read back from its name.
-/

namespace Offside

/-- What a token is. -/
inductive Kind where
  | keyword (word : Keyword)
  | operator (symbol : Operator)
  | delimiter (symbol : Delimiter)
  | identifier
  | number
  | string
  /-- Has a name in listings, although comments yield no tokens. -/
  | comment
  | newline
  | indent
  | dedent
  | endOfInput
deriving DecidableEq, Repr

namespace Kind

/-- Every kind. -/
def all : List Kind :=
  Keyword.all.map .keyword ++ Operator.all.map .operator ++ Delimiter.all.map .delimiter ++
    [.identifier, .number, .string, .comment, .newline, .indent, .dedent, .endOfInput]

/-- The name in listings. -/
def name : Kind → String
  | .keyword word => word.name
  | .operator symbol => symbol.name
  | .delimiter symbol => symbol.name
  | .identifier => "IDENTIFIER"
  | .number => "NUMBER"
  | .string => "STRING"
  | .comment => "COMMENT"
  | .newline => "NEWLINE"
  | .indent => "INDENT"
  | .dedent => "DEDENT"
  | .endOfInput => "END"

/-- The kind with a name in listings. -/
def ofName? (name : String) : Option Kind :=
  all.find? fun kind => kind.name == name

/-- Names tell kinds apart. -/
@[simp] theorem ofName?_name (kind : Kind) : ofName? kind.name = some kind := by
  cases kind with
  | keyword word => cases word <;> decide
  | operator symbol => cases symbol <;> decide
  | delimiter symbol => cases symbol <;> decide
  | _ => decide

/-- Whether the kind is a reserved word. -/
def isKeyword : Kind → Bool
  | .keyword _ => true
  | _ => false

/-- Whether the kind is an operator. -/
def isOperator : Kind → Bool
  | .operator _ => true
  | _ => false

/-- Whether the kind is a delimiter. -/
def isDelimiter : Kind → Bool
  | .delimiter _ => true
  | _ => false

/-- Whether tokens of the kind stand for no source text. -/
def isSynthetic : Kind → Bool
  | .indent | .dedent | .endOfInput => true
  | _ => false

/-- The kind of a name: a keyword when the whole name is reserved. -/
def ofWord (text : List Char) : Kind :=
  match Keyword.ofText? text with
  | some word => .keyword word
  | none => .identifier

/-- The number of open brackets after a token of the kind, given the number before it. A closing
bracket that closes nothing is ignored. -/
def nest (depth : Nat) : Kind → Nat
  | .delimiter symbol =>
    if symbol.opens then depth + 1 else if symbol.closes then depth - 1 else depth
  | _ => depth

end Kind

end Offside
