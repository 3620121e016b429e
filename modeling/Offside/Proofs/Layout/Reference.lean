import Offside.Analysis

/-!
# The layout of lines

A text can be given by its lines: each has a margin, and is blank behind it but for a comment, or holds
tokens with one space between them. What tokens such lines stand for is said here by a layout algorithm
of its own, which goes over the lines with a stack of widths and knows nothing of lexemes or steps.

The stack starts with the outermost level, so it is never empty. A line wider than its top is pushed.
Any other pops what is wider than it, and stops the layout if it then differs from the top.
-/

namespace Offside

/-- What a token says apart from its place. -/
structure Form where
  kind : Kind
  text : List Char
deriving DecidableEq, Repr

/-- What a token says apart from its place. -/
def Token.form (token : Token) : Form := ⟨token.kind, token.text⟩

namespace Layout

/-- A text that reads as one token on its own. -/
structure Word where
  kind : Kind
  text : List Char
  whole : classify text = some ⟨.token kind, text⟩

/-- The token of a word. -/
def Word.form (word : Word) : Form := ⟨word.kind, word.text⟩

/-- The blanks at the front of a line. -/
structure Margin where
  text : List Char
  blank : ∀ c ∈ text, Text.isBlank c = true

/-- What stands behind the number sign of a comment. -/
structure Remark where
  text : List Char
  closed : ∀ c ∈ text, Text.isLineEnd c = false

/-- The number of open brackets behind a token, where a bracket that closes nothing does not count. -/
def bracketDepth (depth : Nat) : Kind → Nat
  | .delimiter .leftParen | .delimiter .leftBracket | .delimiter .leftBrace => depth + 1
  | .delimiter .rightParen | .delimiter .rightBracket | .delimiter .rightBrace => depth - 1
  | _ => depth

/-- A margin and some words whose brackets are all closed. -/
structure Statement where
  margin : Margin
  words : List Word
  nonempty : words ≠ []
  balanced : words.foldl (fun depth word => bracketDepth depth word.kind) 0 = 0

/-- A line of a text. -/
inductive Line where
  /-- Nothing but blanks, or a comment behind them. -/
  | blank (margin : Margin) (remark? : Option Remark)
  | logical (statement : Statement)

/-- The texts of words with one space between them. -/
def joinWords : List Word → List Char
  | [] => []
  | [word] => word.text
  | word :: next :: words => word.text ++ ' ' :: joinWords (next :: words)

/-- The text of a line, with a line feed behind it. -/
def Line.print : Line → List Char
  | .blank margin none => margin.text ++ ['\n']
  | .blank margin (some remark) => margin.text ++ '#' :: remark.text ++ ['\n']
  | .logical statement => statement.margin.text ++ joinWords statement.words ++ ['\n']

/-- The text of some lines. -/
def print (lines : List Line) : List Char :=
  lines.flatMap Line.print

/-- The token of a line end. -/
def newlineForm : Form := ⟨.newline, ['\n']⟩

/-- The token of an opened block. -/
def indentForm : Form := ⟨.indent, []⟩

/-- The token of a closed block. -/
def dedentForm : Form := ⟨.dedent, []⟩

/-- The token of the end of input. -/
def endForm : Form := ⟨.endOfInput, []⟩

/-- The tokens of a line behind its margin. -/
def Statement.forms (statement : Statement) : List Form :=
  statement.words.map Word.form ++ [newlineForm]

/-- Pop what is wider than a line, with a token for each. -/
def popWider (width : Nat) : List Nat → List Form × List Nat
  | [] => ([], [])
  | top :: stack =>
    if width < top then
      let popped := popWider width stack
      (dedentForm :: popped.1, popped.2)
    else ([], top :: stack)

/-- The tokens that end a layout: one for each level above zero, and the end. -/
def unwind (stack : List Nat) : List Form :=
  (stack.filter (0 < ·)).map (fun _ => dedentForm) ++ [endForm]

/-- Where a layout stops. -/
structure Stop where
  /-- The width of the line it stops at. -/
  width : Nat
  /-- The stack before that line, outermost first. -/
  expected : List Nat
  /-- The text in front of the first word of that line. -/
  before : List Char
deriving DecidableEq, Repr

/-- The fault that tells of a stop. -/
def Stop.fault (stop : Stop) : LocatedFault :=
  ⟨.inconsistentDedent stop.width stop.expected, Position.start.advanceOver stop.before⟩

/-- The outcome of a layout. -/
structure Outcome where
  forms : List Form
  stop? : Option Stop
deriving DecidableEq, Repr

/-- An outcome with more tokens in front. -/
def Outcome.prepend (forms : List Form) (outcome : Outcome) : Outcome :=
  { outcome with forms := forms ++ outcome.forms }

/-- The layout of some lines that stand behind a text. The top of the stack comes first. -/
def layOut (stack : List Nat) (before : List Char) : List Line → Outcome
  | [] => ⟨unwind stack, none⟩
  | .blank margin remark? :: lines => layOut stack (before ++ (Line.blank margin remark?).print) lines
  | .logical statement :: lines =>
    let width := indentWidth statement.margin.text
    let behind := before ++ (Line.logical statement).print
    if stack.headD 0 < width then
      (layOut (width :: stack) behind lines).prepend (indentForm :: statement.forms)
    else
      let popped := popWider width stack
      if popped.2.headD 0 = width then
        (layOut popped.2 behind lines).prepend (popped.1 ++ statement.forms)
      else ⟨popped.1 ++ unwind popped.2, some ⟨width, stack.reverse, before ++ statement.margin.text⟩⟩

/-- The layout of a whole text. -/
def layOutText (lines : List Line) : Outcome :=
  layOut [0] [] lines

end Layout

end Offside
