import Offside.Scan.Step

/-!
# Runs of a scan

Every step reads a character or leaves a margin, so a scan ends on every text. A run is all steps up to
the last state, together with what happened in them.

Whether a run went to the end of the text or stopped at a fatal fault, the blocks still open are closed
at the place it has reached, and the end of input is put after them.
-/

namespace Offside

namespace ScanState

/-- A bound on the steps left: two for each character, and one for leaving a margin. -/
def stepBound (state : ScanState) : Nat :=
  2 * state.rest.length +
    match state.mode with
    | .margin _ => 1
    | _ => 0

/-- Leaving a margin reads nothing. -/
theorem rest_enterLine (state : ScanState) (width : Nat) :
    (state.enterLine width).2.rest = state.rest := by
  unfold enterLine
  split <;> rfl

/-- Behind a margin a scan is in the line, or it has stopped. -/
theorem mode_enterLine (state : ScanState) (width : Nat) :
    (state.enterLine width).2.mode = .line 0 ∨ (state.enterLine width).2.mode = .halted := by
  unfold enterLine
  split <;> simp

/-- Leaving a margin takes one step off the bound. -/
theorem stepBound_enterLine (state : ScanState) (width : Nat) :
    (state.enterLine width).2.stepBound = 2 * state.rest.length := by
  rcases mode_enterLine state width with hmode | hmode <;> simp [stepBound, hmode, rest_enterLine]

/-- Reading a lexeme takes a step off the bound, even where it leads into a margin. -/
theorem stepBound_past_lt {state : ScanState} {text : List Char} (mode : Mode)
    (h : Lexeme.IsFront text state.rest) :
    (state.past text mode).stepBound < 2 * state.rest.length := by
  have hshorter := h.length_drop_lt
  have hmargin : (state.past text mode).stepBound ≤ 2 * (state.rest.drop text.length).length + 1 := by
    cases mode <;> simp [stepBound, past]
  omega

/-- A step in a margin reads a lexeme or leaves the margin. -/
theorem stepBound_readMargin_lt (state : ScanState) (width : Option Nat) :
    (state.readMargin width).2.stepBound < 2 * state.rest.length + 1 := by
  unfold readMargin
  split
  · rename_i lexeme hlexeme
    obtain ⟨rule, -, happly⟩ := List.exists_of_findSome?_eq_some hlexeme
    exact Nat.lt_succ_of_lt (stepBound_past_lt _ (Rule.isFront_of_apply happly))
  · rw [stepBound_enterLine]
    exact Nat.lt_succ_self _

/-- A step behind a margin reads a lexeme. -/
theorem stepBound_readLine_lt {state : ScanState} {lexeme : Lexeme} (depth : Nat)
    (h : classify state.rest = some lexeme) :
    (state.readLine depth lexeme).2.stepBound < 2 * state.rest.length := by
  have hfront := isFront_of_classify h
  unfold readLine
  split
  case h_3 => split <;> exact stepBound_past_lt _ hfront
  all_goals exact stepBound_past_lt _ hfront

/-- Every step makes progress. -/
theorem stepBound_lt_of_step {state next : ScanState} {events : List Event}
    (h : state.step = some (events, next)) : next.stepBound < state.stepBound := by
  unfold step at h
  split at h
  · rename_i width hmode
    have hcloser := stepBound_readMargin_lt state width
    split at h
    · cases h
    · rw [Option.some.inj h] at hcloser
      simpa [stepBound, hmode] using hcloser
  · rename_i depth hmode
    obtain ⟨lexeme, hlexeme, hread⟩ := Option.map_eq_some_iff.1 h
    have hcloser := stepBound_readLine_lt depth hlexeme
    rw [hread] at hcloser
    simpa [stepBound, hmode] using hcloser
  · cases h

/-- All steps of a scan: what happens in them, and the state after the last. -/
def run (state : ScanState) : List Event × ScanState :=
  match _ : state.step with
  | none => ([], state)
  | some (events, next) =>
    let later := run next
    (events ++ later.1, later.2)
termination_by state.stepBound
decreasing_by exact stepBound_lt_of_step ‹_›

/-- Where there is no step, a run stays where it is. -/
theorem run_of_step_eq_none {state : ScanState} (h : state.step = none) : state.run = ([], state) := by
  rw [run]
  split <;> simp_all

/-- A run is a step and the run behind it. -/
theorem run_of_step {state next : ScanState} {events : List Event}
    (h : state.step = some (events, next)) :
    state.run = (events ++ next.run.1, next.run.2) := by
  rw [run]
  split <;> simp_all

/-- What happens after the last step. -/
def finish (state : ScanState) : List Event :=
  state.blocks.map (fun _ => .emitted (.synthetic .dedent state.position)) ++
    [.emitted (.synthetic .endOfInput state.position)]

/-- In the end each open block yields one token, and then the input ends. -/
@[simp] theorem tokens_finish (state : ScanState) :
    Event.tokens state.finish =
      (state.blocks.map fun _ => .synthetic .dedent state.position) ++
        [.synthetic .endOfInput state.position] := by
  rw [finish, Event.tokens_append, Event.tokens, List.filterMap_map]
  simp [Function.comp_def]

/-- The tokens that end a scan have no text, and stand where it has come to. -/
theorem exists_synthetic_of_mem_finish {state : ScanState} {token : Token} (h : token ∈ Event.tokens state.finish) :
    ∃ kind : Kind, kind.isSynthetic = true ∧ token = .synthetic kind state.position := by
  rw [tokens_finish] at h
  rcases List.mem_append.1 h with h | h
  · obtain ⟨level, -, rfl⟩ := List.mem_map.1 h
    exact ⟨.dedent, rfl, rfl⟩
  · exact ⟨.endOfInput, rfl, List.mem_singleton.1 h⟩

/-- Ending a scan is no fault. -/
@[simp] theorem errors_finish (state : ScanState) : Event.errors state.finish = [] := by
  rw [finish, Event.errors_append, Event.errors, List.filterMap_map]
  simp [Function.comp_def]

end ScanState

end Offside
