import Offside.Event
import Offside.Layout
import Offside.Lexeme.Extent

/-!
# Steps of a scan

A scan under way keeps what is left of the text, its position, the open blocks, and whether it is in the
margin of a line or behind it. A step reads one lexeme, or leaves the margin at a lexeme that is then
read by the next step.

Lines that hold no token and no fault leave no event, except that a comment may carry the margin of a
line over to the line it ends in. Inside brackets line ends leave no event either. The scan goes on
behind every fault but a margin that fits no block.
-/

namespace Offside

/-- Which part of a line a scan is in. -/
inductive Mode where
  /-- Before the first token of a line. The width is absent until something of the line was read. -/
  | margin (width : Option Nat)
  /-- Behind the margin, with this many brackets open. -/
  | line (depth : Nat)
  /-- Nowhere: the scan has stopped at a fatal fault. -/
  | halted
deriving DecidableEq, Repr

/-- A scan under way. -/
structure ScanState where
  /-- The text not yet read. -/
  rest : List Char
  /-- The place where that text starts. -/
  position : Position
  /-- The widths of the open blocks, innermost first. -/
  blocks : List Nat
  mode : Mode
deriving DecidableEq, Repr

namespace ScanState

/-- The state before anything of `source` was read. -/
def initial (source : List Char) : ScanState :=
  ⟨source, .start, [], .margin none⟩

/-- The state behind a text at the front of the rest. -/
def past (state : ScanState) (text : List Char) (mode : Mode) : ScanState :=
  { state with
    rest := state.rest.drop text.length
    position := state.position.advanceOver text
    mode }

/-- The events of blocks that a line of a width closes. -/
def closing (position : Position) (width : Nat) (closed : List Nat) : List Event :=
  closed.flatMap fun level => [.closed level width, .emitted (.synthetic .dedent position)]

/-- Each closed block yields one token. -/
@[simp] theorem tokens_closing (position : Position) (width : Nat) (closed : List Nat) :
    Event.tokens (closing position width closed) = closed.map fun _ => .synthetic .dedent position := by
  induction closed with
  | nil => rfl
  | cons level levels ih => simpa [closing] using ih

/-- Closing blocks is no fault. -/
@[simp] theorem errors_closing (position : Position) (width : Nat) (closed : List Nat) :
    Event.errors (closing position width closed) = [] := by
  induction closed with
  | nil => rfl
  | cons level levels ih => simpa [closing] using ih

/-- Leave a margin of a width at the first token or fault of the line, which stays unread. -/
def enterLine (state : ScanState) (width : Nat) : List Event × ScanState :=
  match shift state.blocks width with
  | .opens =>
    ([.opened width, .emitted (.synthetic .indent state.position)],
      { state with blocks := width :: state.blocks, mode := .line 0 })
  | .settles closed kept =>
    (closing state.position width closed, { state with blocks := kept, mode := .line 0 })
  | .misfits closed kept =>
    let error := ⟨.inconsistentDedent width (levels state.blocks), state.position⟩
    (closing state.position width closed ++ [.failed error, .aborted error],
      { state with blocks := kept, mode := .halted })

/-- The rules that are tried in the margin of a line, in order. The first blanks of a line are looked
for before anything else, since they give its width; behind them comments come first. -/
def marginRules (width : Option Nat) : List Rule :=
  if width.isNone then [.blank, .comment, .lineEnd] else [.comment, .blank, .lineEnd]

/-- The mode behind a lexeme of the margin. The first blanks of a line give the width, unless a
comment stands in front of them. -/
def marginBehind (width : Option Nat) (lexeme : Lexeme) : Mode :=
  match lexeme.reading with
  | .lineEnd => .margin none
  | .blank => .margin (some (width.getD (indentWidth lexeme.text)))
  | _ => .margin (some (width.getD 0))

/-- Read a lexeme of the margin, or leave the margin where it has no more. -/
def readMargin (state : ScanState) (width : Option Nat) : List Event × ScanState :=
  match (marginRules width).findSome? (Rule.apply state.rest) with
  | some lexeme => ([], state.past lexeme.text (marginBehind width lexeme))
  | none => state.enterLine (width.getD 0)

/-- Read a lexeme behind the margin. A line end inside brackets joins two lines. -/
def readLine (state : ScanState) (depth : Nat) (lexeme : Lexeme) : List Event × ScanState :=
  match lexeme.reading with
  | .blank | .comment => ([], state.past lexeme.text (.line depth))
  | .lineEnd =>
    if depth = 0 then
      ([.emitted (.spanning .newline lexeme.text state.position)],
        state.past lexeme.text (.margin none))
    else ([], state.past lexeme.text (.line depth))
  | .token kind =>
    ([.emitted (.spanning kind lexeme.text state.position)],
      state.past lexeme.text (.line (kind.nest depth)))
  | .fault fault => ([.failed ⟨fault, state.position⟩], state.past lexeme.text (.line depth))

/-- One step of a scan, until the text is read or the scan has stopped. -/
def step (state : ScanState) : Option (List Event × ScanState) :=
  match state.mode with
  | .margin width => if state.rest.isEmpty then none else some (state.readMargin width)
  | .line depth => (classify state.rest).map (state.readLine depth)
  | .halted => none

end ScanState

end Offside
