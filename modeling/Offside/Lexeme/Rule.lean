import Offside.Lexeme.Basic

/-!
# Rules for lexemes

Each rule looks at the front of a text on its own and takes the longest piece that it describes, or
nothing. A rule never takes an empty piece. Two rules can take something from the same text only
when it opens with three equal quotes, as a block comment and as an empty string.

The string rule answers for every text that opens with a quote: an unclosed literal is a fault that
takes the opening quote alone, so that reading goes on behind it.
-/

namespace Offside.Lexeme

open Text

/-- A piece of text, unless it is empty. -/
def nonempty? (text : List Char) : Option (List Char) :=
  if text.isEmpty then none else some text

/-- The run of blanks at the front. -/
def blank? (window : List Char) : Option (List Char) :=
  nonempty? (window.takeWhile isBlank)

/-- The line end at the front, both characters of a pair at once. -/
def lineEnd? : List Char → Option (List Char)
  | '\r' :: '\n' :: _ => some ['\r', '\n']
  | c :: _ => if isLineEnd c then some [c] else none
  | [] => none

/-- The text up to and including the next three quotes in a row, or all of it. -/
def closeBlock (quote : Char) : List Char → List Char
  | [] => []
  | c :: cs =>
    if List.replicate 3 quote <+: c :: cs then List.replicate 3 quote else c :: closeBlock quote cs

/-- The comment at the front: from a number sign to the end of the line, or a block between three
quotes, which runs to the end of the text when it is not closed. -/
def comment? : List Char → Option (List Char)
  | '#' :: cs => some ('#' :: cs.takeWhile fun c => !isLineEnd c)
  | a :: b :: c :: cs =>
    if isQuote a && a == b && a == c then some (a :: b :: c :: closeBlock a cs) else none
  | _ => none

/-- The text up to and including the quote that closes a literal, if it is closed on its line. A
backslash takes the character after it along, whatever that is. -/
def closeString? (quote : Char) : List Char → Option (List Char)
  | [] => none
  | '\\' :: c :: cs => (closeString? quote cs).map ('\\' :: c :: ·)
  | c :: cs =>
    if c == quote then some [c]
    else if isLineEnd c then none
    else (closeString? quote cs).map (c :: ·)

/-- The string literal at the front, or the fault of one that is not closed. -/
def string? : List Char → Option Lexeme
  | [] => none
  | quote :: cs =>
    if isQuote quote then
      match closeString? quote cs with
      | some body => some ⟨.token .string, quote :: body⟩
      | none => some ⟨.fault (.unterminatedString quote), [quote]⟩
    else none

/-- The number at the front. A point belongs to it only with digits on both sides. -/
def number? (window : List Char) : Option (List Char) :=
  (nonempty? (window.takeWhile Char.isDigit)).map fun whole =>
    match window.dropWhile Char.isDigit with
    | '.' :: cs =>
      match nonempty? (cs.takeWhile Char.isDigit) with
      | some fraction => whole ++ '.' :: fraction
      | none => whole
    | _ => whole

/-- The name at the front. -/
def word? : List Char → Option (List Char)
  | [] => none
  | c :: cs => if isNameStart c then some (c :: cs.takeWhile isNameChar) else none

/-- The operator at the front, two characters before one. -/
def operator? (window : List Char) : Option (Operator × List Char) :=
  [2, 1].findSome? fun n => (Operator.ofText? (window.take n)).map (·, window.take n)

/-- The delimiter at the front. -/
def delimiter? (window : List Char) : Option (Delimiter × List Char) :=
  (Delimiter.ofText? (window.take 1)).map (·, window.take 1)

end Offside.Lexeme

namespace Offside

/-- The classes of lexemes, each with a rule. -/
inductive Rule where
  | blank | lineEnd | comment | string | number | word | operator | delimiter
deriving DecidableEq, Repr

namespace Rule

/-- The lexeme that a rule takes from the front of a text. -/
def apply (window : List Char) : Rule → Option Lexeme
  | .blank => (Lexeme.blank? window).map (⟨.blank, ·⟩)
  | .lineEnd => (Lexeme.lineEnd? window).map (⟨.lineEnd, ·⟩)
  | .comment => (Lexeme.comment? window).map (⟨.comment, ·⟩)
  | .string => Lexeme.string? window
  | .number => (Lexeme.number? window).map (⟨.token .number, ·⟩)
  | .word => (Lexeme.word? window).map fun text => ⟨.token (.ofWord text), text⟩
  | .operator => (Lexeme.operator? window).map fun (symbol, text) => ⟨.token (.operator symbol), text⟩
  | .delimiter => (Lexeme.delimiter? window).map fun (symbol, text) => ⟨.token (.delimiter symbol), text⟩

/-- The order in which the rules are tried. Comments come before strings, so that three quotes open
a block. -/
def priority : List Rule :=
  [.blank, .lineEnd, .comment, .string, .number, .word, .operator, .delimiter]

end Rule

end Offside
