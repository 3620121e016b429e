import Offside.Fault
import Offside.Text.Lines
import Offside.Text.WhiteSpace

/-!
# Diagnostics

A diagnostic shows a located fault to a person: its name and tip, its place, and the line it is in with
a caret under the faulty column. The line is shown without the spaces and tabs at its start and
without the white space at its end, and the caret moves along with the text.

The line is found by the byte index alone, and line and column are shown as given, so the two need not
agree. An index beyond the source has no line. One that falls inside a character has no column, and
then there is no diagnostic.

A diagnostic is printed from the top. Where there is no column, or where the caret is further to the right
than it can be padded, printing breaks off: everything above the caret is out by then, and nothing follows.
-/

namespace Offside

/-- A source line with a mark under one of its columns. -/
structure Excerpt where
  /-- The number of the line, counted from one. -/
  number : Nat
  /-- The line as it is shown. -/
  text : List Char
  /-- The number of columns in front of the mark. -/
  column : Nat
deriving DecidableEq, Repr

namespace Excerpt

/-- Space and tab are left out at the start of a shown line. -/
def isMargin (c : Char) : Bool :=
  c == ' ' || c == '\t'

/-- What is shown of a line. -/
def shown (line : List Char) : List Char :=
  Text.trimEnd (line.dropWhile isMargin)

/-- The excerpt for a place in a line, unless the place is inside a character. A place within the part
that is left out is marked at the first column. -/
def ofLine? (view : Text.LineView) : Option Excerpt :=
  (Text.takeBytes? view.offset view.text).map fun before =>
    { number := view.number
      text := shown view.text
      column := before.length - (view.text.takeWhile isMargin).length }

/-- A bar, set in so far that it stands behind every digit of a line number. -/
def bar (number : Nat) : String :=
  String.ofList (List.replicate (toString number).length ' ') ++ " |"

/-- The lines above the mark: a bar, and the numbered line as it is shown. -/
def above (number : Nat) (text : List Char) : List String :=
  [bar number, s!"{number} | " ++ String.ofList text]

/-- The line of the mark. -/
def markLine (excerpt : Excerpt) : String :=
  bar excerpt.number ++ " " ++ String.ofList (List.replicate excerpt.column '-') ++ "^"

/-- The lines of an excerpt. -/
def lines (excerpt : Excerpt) : List String :=
  above excerpt.number excerpt.text ++ [excerpt.markLine]

/-- The most columns that a text can be padded to. -/
def maxPadding : Nat := 65535

/-- The mark is not so far to the right that it cannot be padded to its column. -/
def fits (excerpt : Excerpt) : Bool :=
  excerpt.column + 1 ≤ maxPadding

/-- The excerpt of a line has its number, and what is shown of it. -/
theorem eq_of_ofLine? {view : Text.LineView} {excerpt : Excerpt} (h : ofLine? view = some excerpt) :
    excerpt.number = view.number ∧ excerpt.text = shown view.text := by
  obtain ⟨before, -, rfl⟩ := Option.map_eq_some_iff.1 h
  exact ⟨rfl, rfl⟩

/-- A mark can be padded to a column in front of which fewer others are. -/
theorem fits_iff {excerpt : Excerpt} : excerpt.fits = true ↔ excerpt.column < maxPadding := by
  rw [fits, decide_eq_true_iff, Nat.succ_le_iff]

end Excerpt

/-- What is printed, line by line. -/
structure Printout where
  lines : List String
  /-- Printing went on to the end, and did not break off behind the lines. -/
  isWhole : Bool
deriving DecidableEq, Repr

namespace Printout

/-- A printout of which nothing is missing. -/
def whole (lines : List String) : Printout := ⟨lines, true⟩

/-- A printout that breaks off behind some lines. -/
def cutOff (lines : List String) : Printout := ⟨lines, false⟩

/-- The text of a printout, each line with its line feed. -/
def text (printout : Printout) : String :=
  String.join (printout.lines.map (· ++ "\n"))

/-- One printout after another, up to the first that breaks off. -/
def sequence : List Printout → Printout
  | [] => whole []
  | first :: later =>
    if first.isWhole then
      let rest := sequence later
      ⟨first.lines ++ rest.lines, rest.isWhole⟩
    else first

end Printout

/-- What is shown of a fault. -/
structure Diagnostic where
  error : LocatedFault
  /-- The name of the source. -/
  label : String
  /-- The faulty line, if the place of the fault is in the source. -/
  excerpt : Option Excerpt
deriving DecidableEq, Repr

namespace Diagnostic

/-- The diagnostic of a fault in a source, unless the fault is placed inside a character. -/
def ofError? (source : List Char) (label : String) (error : LocatedFault) : Option Diagnostic :=
  match Text.lineAt? source error.position.index with
  | none => some ⟨error, label, none⟩
  | some view => (Excerpt.ofLine? view).map fun excerpt => ⟨error, label, some excerpt⟩

/-- The line that names the fault. -/
def headline (diagnostic : Diagnostic) : String :=
  "Error: " ++ diagnostic.error.fault.name ++
    match diagnostic.error.fault.tip? with
    | some tip => " (" ++ tip ++ ")"
    | none => ""

/-- The line that says where the fault is. -/
def place (diagnostic : Diagnostic) : String :=
  "-> " ++ diagnostic.label ++
    s!":{diagnostic.error.position.line}:{diagnostic.error.position.column}"

/-- All lines of a diagnostic. -/
def lines (diagnostic : Diagnostic) : List String :=
  diagnostic.headline :: diagnostic.place :: (diagnostic.excerpt.map Excerpt.lines).getD []

/-- The text of a diagnostic, each line with its line feed. -/
def render (diagnostic : Diagnostic) : String :=
  String.join (diagnostic.lines.map (· ++ "\n"))

/-- The lines of a fault in a source that stand above the mark. -/
def unmarked (source : List Char) (label : String) (error : LocatedFault) : List String :=
  lines ⟨error, label, none⟩ ++
    match Text.lineAt? source error.position.index with
    | none => []
    | some view => Excerpt.above view.number (Excerpt.shown view.text)

/-- What is printed of a fault in a source. The column is looked for and the mark is padded only when the
lines above the mark are out, so these are printed in any case. -/
def print (source : List Char) (label : String) (error : LocatedFault) : Printout :=
  match ofError? source label error with
  | some diagnostic =>
    if diagnostic.excerpt.all Excerpt.fits then .whole diagnostic.lines
    else .cutOff (unmarked source label error)
  | none => .cutOff (unmarked source label error)

end Diagnostic

end Offside
