import Offside.Scan.Run

/-!
# Scans

The scan of a text is everything that happens in a run over it and in closing it. Tokens and faults are
read off the events, each in the order in which they came up.
-/

namespace Offside

/-- A finished scan. -/
structure Scan where
  events : List Event
  /-- The place that the scan reached. -/
  position : Position
deriving DecidableEq, Repr

namespace Scan

/-- The scan of a text. -/
def ofSource (source : List Char) : Scan :=
  let last := (ScanState.initial source).run
  ⟨last.1 ++ last.2.finish, last.2.position⟩

/-- The tokens, the last of which is the end of input. -/
def tokens (scan : Scan) : List Token :=
  Event.tokens scan.events

/-- The faults, of which only the last can be fatal. -/
def errors (scan : Scan) : List LocatedFault :=
  Event.errors scan.events

end Scan

end Offside
