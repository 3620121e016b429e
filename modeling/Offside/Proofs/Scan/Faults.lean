import Offside.Proofs.Lexeme.Context
import Offside.Proofs.Scan.Positions

/-!
# Where faults are found

A scan reports a fault where it has come to, in front of a lexeme that separates nothing: a fault of a lexeme
in front of that lexeme, and a margin that fits no block in front of the first token or fault of its line. So
the character at a fault is neither a blank nor a line end.
-/

namespace Offside

open Text

/-- A fault is in front of a lexeme that is a token or a fault. -/
def LocatedFault.IsFoundIn (error : LocatedFault) (source : List Char) : Prop :=
  ∃ before rest lexeme, source = before ++ rest ∧ error.position.MarksCut before rest ∧
    classify rest = some lexeme ∧ lexeme.reading.isTrivia = false

/-- At a fault there is a character, which is neither a blank nor a line end. -/
theorem LocatedFault.IsFoundIn.exists_char {error : LocatedFault} {source : List Char}
    (h : error.IsFoundIn source) :
    ∃ before c after, source = before ++ c :: after ∧ error.position.MarksCut before (c :: after) ∧
      isBlank c = false ∧ isLineEnd c = false := by
  obtain ⟨before, rest, lexeme, hsource, hmark, hlexeme, htrivia⟩ := h
  obtain ⟨c, after, rfl⟩ := List.exists_cons_of_ne_nil (isFront_of_classify hlexeme).window_ne_nil
  exact ⟨before, c, after, hsource, hmark, isBlank_eq_false_of_classify hlexeme htrivia,
    isLineEnd_eq_false_of_classify hlexeme htrivia⟩

namespace ScanState

variable {state : ScanState} {events : List Event} {error : LocatedFault}

/-- Every fault that some steps report is reported by one of them, from a state that the others lead to. -/
theorem Steps.exists_moves_of_error {first : ScanState} (h : Steps first events state)
    (hmem : error ∈ Event.errors events) :
    ∃ earlier middle new next, Steps first earlier middle ∧ middle.Moves new next ∧ error ∈ Event.errors new := by
  obtain ⟨event, hevent, herror⟩ := List.mem_filterMap.1 hmem
  obtain ⟨earlier, middle, new, next, hsteps, hmove, hnew⟩ := h.exists_moves_of_mem hevent
  exact ⟨earlier, middle, new, next, hsteps, hmove, List.mem_filterMap.2 ⟨event, hnew, herror⟩⟩

/-- Some steps from the start report faults in front of tokens and faults only. -/
theorem Steps.isFoundIn {source : List Char} (h : Steps (initial source) events state)
    (hmem : error ∈ Event.errors events) : error.IsFoundIn source := by
  obtain ⟨earlier, middle, new, next, hsteps, hmove, hnew⟩ := h.exists_moves_of_error hmem
  obtain ⟨hposition, lexeme, hlexeme, htrivia⟩ := hmove.exists_lexeme_of_mem hnew
  obtain ⟨before, hsource, hmark⟩ := (Tracks.of_steps hsteps).cut
  rw [← hposition] at hmark
  exact ⟨before, middle.rest, lexeme, hsource, hmark, hlexeme, htrivia⟩

end ScanState

/-- Every fault of a text is found in front of a token or a fault. -/
theorem isFoundIn_of_mem_faultsOf {source : List Char} {error : LocatedFault} (h : error ∈ faultsOf source) :
    error.IsFoundIn source := by
  rw [faultsOf_eq_run] at h
  exact (ScanState.steps_run (.initial source)).isFoundIn h

end Offside
