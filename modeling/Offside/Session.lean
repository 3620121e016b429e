import Offside.Scan

/-!
# Sessions

A session is a source that is scanned once, and that can be asked before and after the scan. Faults
wait in the session until they are taken, so none is handed out twice. A second scan finds nothing
left to read and changes nothing.
-/

namespace Offside

/-- A source, and what is known of its scan. -/
structure Session where
  source : List Char
  /-- The place that the scan reached, or the start. -/
  position : Position
  /-- The faults that were found and not yet taken. -/
  errors : List LocatedFault
  /-- Whether the source was scanned. -/
  isFinished : Bool
deriving DecidableEq, Repr

/-- What can be asked of a session. -/
inductive Request where
  | position
  | isAtEnd
  | errors
  | takeErrors
  | scanTokens
deriving DecidableEq, Repr

/-- What a session answers. -/
inductive Reply where
  | position (position : Position)
  | flag (holds : Bool)
  | errors (errors : List LocatedFault)
  | tokens (tokens : List Token)
deriving DecidableEq, Repr

namespace Session

/-- The session of a source that was not scanned yet. -/
def ofSource (source : List Char) : Session :=
  ⟨source, .start, [], false⟩

/-- Whether the place reached is behind the last byte of the source. -/
def isAtEnd (session : Session) : Bool :=
  Text.byteLength session.source ≤ session.position.index

/-- Take the faults that wait. -/
def takeErrors (session : Session) : List LocatedFault × Session :=
  (session.errors, { session with errors := [] })

/-- Scan the source, unless that was done. -/
def scanTokens (session : Session) : List Token × Session :=
  if session.isFinished then ([], session)
  else
    let scan := Scan.ofSource session.source
    (scan.tokens,
      { session with
        position := scan.position
        errors := session.errors ++ scan.errors
        isFinished := true })

/-- Answer one request. -/
def answer (session : Session) : Request → Reply × Session
  | .position => (.position session.position, session)
  | .isAtEnd => (.flag session.isAtEnd, session)
  | .errors => (.errors session.errors, session)
  | .takeErrors => session.takeErrors.map .errors id
  | .scanTokens => session.scanTokens.map .tokens id

/-- Answer requests in order. -/
def converse (session : Session) : List Request → List Reply × Session
  | [] => ([], session)
  | request :: requests =>
    let (reply, next) := session.answer request
    let (replies, last) := next.converse requests
    (reply :: replies, last)

end Session

end Offside
