import Offside.Scan

/-!
# The journal of a scan

A scan can be followed in a journal of records, each with a severity, a message and named fields. Two
spans open it: one for the analysis and one for the scan in it. Every event of the scan has a record,
and the last record counts the tokens and the faults.
-/

namespace Offside

/-- How much a record matters to a reader of the journal, most first. -/
inductive Severity where
  | info | debug | trace
deriving DecidableEq, Repr

/-- The name of a severity in a journal. -/
def Severity.name : Severity → String
  | .info => "INFO"
  | .debug => "DEBUG"
  | .trace => "TRACE"

/-- What a field of a record holds. -/
inductive FieldValue where
  | number (value : Nat)
  | text (value : String)
deriving DecidableEq, Repr

/-- A record of a journal. -/
inductive Record where
  /-- Something with a duration begins. -/
  | span (severity : Severity) (name : String) (fields : List (String × FieldValue))
  /-- Something happens. -/
  | event (severity : Severity) (message : String) (fields : List (String × FieldValue))
deriving DecidableEq, Repr

namespace Record

/-- The record of an event of a scan. -/
def ofEvent : Event → Record
  | .opened width => .event .trace "indent" [("width", .number width)]
  | .closed level width => .event .trace "dedent" [("top", .number level), ("width", .number width)]
  | .emitted token => .event .trace "token" [("token", .text token.render)]
  | .failed error => .event .debug "lexical error" [("error", .text error.render)]
  | .aborted error => .event .debug "aborting scan" [("error", .text error.render)]

/-- The record of the end of a scan. -/
def ofScan (scan : Scan) : Record :=
  .event .debug "scan finished"
    [("tokens", .number scan.tokens.length), ("errors", .number scan.errors.length)]

end Record

/-- The records of a scan of a text. -/
def journal (source : List Char) : List Record :=
  let length := FieldValue.number (Text.byteLength source)
  let scan := Scan.ofSource source
  [.span .info "analyze" [("len", length)], .span .info "scan_tokens" [("len", length)]] ++
    scan.events.map .ofEvent ++ [.ofScan scan]

end Offside
