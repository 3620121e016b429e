import Offside.Fault
import Offside.Token

/-!
# Events of a scan

A scan is told as the list of what happened in it, in order. The tokens it yields and the faults it
reports are two views of that list, and so is the log.

An opened or closed block is an event of its own, followed by the token that says so. The blocks
that the end of input closes have the token alone.
-/

namespace Offside

/-- Something that happens in a scan. -/
inductive Event where
  /-- A line of this width opens a block. -/
  | opened (width : Nat)
  /-- A line of a width closes the block of this level. -/
  | closed (level width : Nat)
  /-- A token is yielded. -/
  | emitted (token : Token)
  /-- A fault is reported. -/
  | failed (error : LocatedFault)
  /-- The scan stops at a fault that it has reported. -/
  | aborted (error : LocatedFault)
deriving DecidableEq, Repr

namespace Event

/-- The token that an event yields. -/
@[simp] def token? : Event → Option Token
  | .emitted token => some token
  | _ => none

/-- The fault that an event reports. -/
@[simp] def error? : Event → Option LocatedFault
  | .failed error => some error
  | _ => none

/-- The tokens of some events, in order. -/
def tokens (events : List Event) : List Token :=
  events.filterMap token?

/-- The faults of some events, in order. -/
def errors (events : List Event) : List LocatedFault :=
  events.filterMap error?

@[simp] theorem tokens_nil : tokens [] = [] := rfl

@[simp] theorem errors_nil : errors [] = [] := rfl

@[simp] theorem tokens_cons (event : Event) (events : List Event) :
    tokens (event :: events) = event.token?.toList ++ tokens events := by
  cases event <;> rfl

@[simp] theorem errors_cons (event : Event) (events : List Event) :
    errors (event :: events) = event.error?.toList ++ errors events := by
  cases event <;> rfl

@[simp] theorem tokens_append (a b : List Event) : tokens (a ++ b) = tokens a ++ tokens b :=
  List.filterMap_append

@[simp] theorem errors_append (a b : List Event) : errors (a ++ b) = errors a ++ errors b :=
  List.filterMap_append

end Event

end Offside
