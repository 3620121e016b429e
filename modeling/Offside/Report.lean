import Offside.Analysis
import Offside.Diagnostic

/-!
# Reports

A report lists the tokens of a text, one per line, and shows its faults in the order in which they were
found. Where there are faults the tokens are those that could be read beside them. No fault is shown behind
one that could not be shown to the end.
-/

namespace Offside

/-- What is told about a text. -/
structure Report where
  tokens : List Token
  /-- What each fault is to be shown as. -/
  printouts : List Printout
deriving DecidableEq, Repr

namespace Report

/-- The report of a text that goes by a name. -/
def ofSource (source : List Char) (label : String) : Report :=
  match analyze source with
  | .ok tokens => ⟨tokens, []⟩
  | .error failure => ⟨failure.tokens, failure.errors.map (Diagnostic.print source label)⟩

/-- The tokens, a line each. -/
def listing (report : Report) : String :=
  String.join (report.tokens.map fun token => token.render ++ "\n")

/-- The faults, one after another. -/
def complaints (report : Report) : Printout :=
  .sequence report.printouts

end Report

end Offside
