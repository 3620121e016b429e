import Mathlib.Data.List.TakeWhile
import Offside.Analysis
import Offside.Proofs.Lexeme.Priority

/-!
# Runs step by step

What one step of a scan can do is said once, by a relation with one case for each thing that can happen.
Every fact about scans follows from these cases by induction on the steps taken.

The states that a scan goes through are those that some number of steps leads to. A run is all of them,
and it ends where the text is read or the scan has halted.
-/

namespace Offside.ScanState

/-- What one step does: the events it leaves and the state it leads to. -/
inductive Moves (state : ScanState) : List Event → ScanState → Prop where
  /-- A blank, a comment or a line end in a margin leaves no event. -/
  | skipsInMargin {measured : Option Nat} {lexeme : Lexeme} (hmode : state.mode = .margin measured)
      (hlexeme : classify state.rest = some lexeme) (htrivia : lexeme.reading.isTrivia = true) :
      Moves state [] (state.past lexeme.text (marginBehind measured lexeme))
  /-- A line wider than the innermost block opens one. -/
  | opens {measured : Option Nat} {lexeme : Lexeme} (hmode : state.mode = .margin measured)
      (hlexeme : classify state.rest = some lexeme) (htrivia : lexeme.reading.isTrivia = false)
      (hwider : innermost state.blocks < measured.getD 0) :
      Moves state [.opened (measured.getD 0), .emitted (.synthetic .indent state.position)]
        { state with blocks := measured.getD 0 :: state.blocks, mode := .line 0 }
  /-- Any other line closes the blocks that are wider, and goes on in one of its own width. -/
  | settles {measured : Option Nat} {lexeme : Lexeme} {closed kept : List Nat}
      (hmode : state.mode = .margin measured) (hlexeme : classify state.rest = some lexeme)
      (htrivia : lexeme.reading.isTrivia = false) (hblocks : state.blocks = closed ++ kept)
      (hclosed : ∀ level ∈ closed, measured.getD 0 < level) (hkept : innermost kept = measured.getD 0) :
      Moves state (closing state.position (measured.getD 0) closed)
        { state with blocks := kept, mode := .line 0 }
  /-- The scan halts at a line that has the width of no open block. -/
  | misfits {measured : Option Nat} {lexeme : Lexeme} {closed kept : List Nat} {error : LocatedFault}
      (hmode : state.mode = .margin measured) (hlexeme : classify state.rest = some lexeme)
      (htrivia : lexeme.reading.isTrivia = false) (hblocks : state.blocks = closed ++ kept)
      (hclosed : ∀ level ∈ closed, measured.getD 0 < level) (hkept : innermost kept < measured.getD 0)
      (hnarrow : measured.getD 0 ≤ innermost state.blocks)
      (herror : error = ⟨.inconsistentDedent (measured.getD 0) (levels state.blocks), state.position⟩) :
      Moves state (closing state.position (measured.getD 0) closed ++ [.failed error, .aborted error])
        { state with blocks := kept, mode := .halted }
  /-- A blank, a comment or a joined line end behind the margin leaves no event. -/
  | skipsInLine {depth : Nat} {lexeme : Lexeme} (hmode : state.mode = .line depth)
      (hlexeme : classify state.rest = some lexeme) (htrivia : lexeme.reading.isTrivia = true)
      (hjoined : lexeme.reading = .lineEnd → depth ≠ 0) :
      Moves state [] (state.past lexeme.text (.line depth))
  /-- A line end outside brackets ends the line. -/
  | endsLine {text : List Char} (hmode : state.mode = .line 0)
      (hlexeme : classify state.rest = some ⟨.lineEnd, text⟩) :
      Moves state [.emitted (.spanning .newline text state.position)] (state.past text (.margin none))
  /-- A token is yielded. -/
  | yields {depth : Nat} {kind : Kind} {text : List Char} (hmode : state.mode = .line depth)
      (hlexeme : classify state.rest = some ⟨.token kind, text⟩) :
      Moves state [.emitted (.spanning kind text state.position)]
        (state.past text (.line (kind.nest depth)))
  /-- A fault is reported, and reading goes on behind it. -/
  | reports {depth : Nat} {fault : Fault} {text : List Char} (hmode : state.mode = .line depth)
      (hlexeme : classify state.rest = some ⟨.fault fault, text⟩) :
      Moves state [.failed ⟨fault, state.position⟩] (state.past text (.line depth))

/-- The innermost block that a line keeps is not wider than the line. -/
theorem innermost_dropWhile_le (blocks : List Nat) (width : Nat) :
    innermost (blocks.dropWhile (width < ·)) ≤ width := by
  induction blocks with
  | nil => exact Nat.zero_le _
  | cons level levels ih =>
    by_cases hlevel : width < level
    · simpa [hlevel] using ih
    · rw [List.dropWhile_cons_of_neg (by simpa using hlevel)]
      exact Nat.le_of_not_lt hlevel

/-- Leaving a margin stays where it is. -/
theorem position_enterLine (state : ScanState) (width : Nat) :
    (state.enterLine width).2.position = state.position := by
  unfold enterLine
  split <;> rfl

/-- Leaving a margin opens a block, settles in one, or halts. -/
theorem moves_enterLine {state : ScanState} {measured : Option Nat} {lexeme : Lexeme}
    (hmode : state.mode = .margin measured) (hlexeme : classify state.rest = some lexeme)
    (htrivia : lexeme.reading.isTrivia = false) :
    state.Moves (state.enterLine (measured.getD 0)).1 (state.enterLine (measured.getD 0)).2 := by
  have hblocks := (List.takeWhile_append_dropWhile (p := (measured.getD 0 < ·)) (l := state.blocks)).symm
  have hclosed : ∀ level ∈ state.blocks.takeWhile (measured.getD 0 < ·), measured.getD 0 < level :=
    fun level hlevel => by simpa using List.mem_takeWhile_imp hlevel
  have hkept := innermost_dropWhile_le state.blocks (measured.getD 0)
  unfold enterLine shift
  dsimp only
  by_cases hwider : innermost state.blocks < measured.getD 0
  · rw [if_pos hwider]
    exact .opens hmode hlexeme htrivia hwider
  rw [if_neg hwider]
  by_cases heq : innermost (state.blocks.dropWhile (measured.getD 0 < ·)) = measured.getD 0
  · rw [if_pos heq]
    exact .settles hmode hlexeme htrivia hblocks hclosed heq
  · rw [if_neg heq]
    exact .misfits hmode hlexeme htrivia hblocks hclosed (by omega) (by omega) rfl

/-- A scan goes on until the text is read or it has halted. -/
theorem step_eq_none_iff (state : ScanState) :
    state.step = none ↔ state.rest = [] ∨ state.mode = .halted := by
  cases hmode : state.mode with
  | margin measured => by_cases hrest : state.rest = [] <;> simp [step, hmode, hrest]
  | line depth => simp [step, hmode]
  | halted => simp [step, hmode]

/-- Every step is made in front of a lexeme. -/
theorem exists_classify_of_step {state next : ScanState} {events : List Event}
    (h : state.step = some (events, next)) : ∃ lexeme, classify state.rest = some lexeme := by
  refine exists_classify_of_ne_nil fun hrest => ?_
  rw [(step_eq_none_iff state).2 (.inl hrest)] at h
  cases h

/-- What separates tokens is skipped in a margin. -/
theorem step_of_trivia {state : ScanState} {measured : Option Nat} {lexeme : Lexeme}
    (hmode : state.mode = .margin measured) (hlexeme : classify state.rest = some lexeme)
    (htrivia : lexeme.reading.isTrivia = true) :
    state.step = some ([], state.past lexeme.text (marginBehind measured lexeme)) := by
  have hrest := (isFront_of_classify hlexeme).window_ne_nil
  simp only [step, hmode]
  rw [if_neg (by simpa using hrest), readMargin, findSome?_marginRules, hlexeme, Option.filter_some,
    htrivia, if_pos rfl]

/-- A margin is left in front of a token or a fault. -/
theorem step_of_proper {state : ScanState} {measured : Option Nat} {lexeme : Lexeme}
    (hmode : state.mode = .margin measured) (hlexeme : classify state.rest = some lexeme)
    (htrivia : lexeme.reading.isTrivia = false) :
    state.step = some (state.enterLine (measured.getD 0)) := by
  have hrest := (isFront_of_classify hlexeme).window_ne_nil
  simp only [step, hmode]
  rw [if_neg (by simpa using hrest), readMargin, findSome?_marginRules, hlexeme, Option.filter_some,
    htrivia, if_neg Bool.false_ne_true]

/-- Behind the margin, one lexeme is read after another. -/
theorem step_of_line {state : ScanState} {depth : Nat} {lexeme : Lexeme}
    (hmode : state.mode = .line depth) (hlexeme : classify state.rest = some lexeme) :
    state.step = some (state.readLine depth lexeme) := by
  simp only [step, hmode, hlexeme, Option.map_some]

/-- Behind trivia in a margin there is a margin. -/
theorem exists_marginBehind (measured : Option Nat) (lexeme : Lexeme) :
    ∃ measured', marginBehind measured lexeme = .margin measured' := by
  unfold marginBehind
  split <;> exact ⟨_, rfl⟩

/-- Every step is one of the moves. -/
theorem moves_of_step {state next : ScanState} {events : List Event}
    (h : state.step = some (events, next)) : state.Moves events next := by
  obtain ⟨lexeme, hlexeme⟩ := exists_classify_of_step h
  cases hmode : state.mode with
  | margin measured =>
    cases htrivia : lexeme.reading.isTrivia with
    | true =>
      rw [step_of_trivia hmode hlexeme htrivia] at h
      cases h
      exact .skipsInMargin hmode hlexeme htrivia
    | false =>
      rw [step_of_proper hmode hlexeme htrivia] at h
      have hmoves := moves_enterLine hmode hlexeme htrivia
      rw [Option.some.inj h] at hmoves
      exact hmoves
  | line depth =>
    rw [step_of_line hmode hlexeme] at h
    obtain ⟨reading, text⟩ := lexeme
    cases reading with
    | blank | comment =>
      cases h
      exact .skipsInLine hmode hlexeme rfl (fun hend => by cases hend)
    | lineEnd =>
      by_cases hdepth : depth = 0
      · subst hdepth
        cases h
        exact .endsLine hmode hlexeme
      · simp only [readLine, if_neg hdepth] at h
        cases h
        exact .skipsInLine hmode hlexeme rfl (fun _ => hdepth)
    | token kind =>
      cases h
      exact .yields hmode hlexeme
    | fault fault =>
      cases h
      exact .reports hmode hlexeme
  | halted =>
    simp only [step, hmode] at h
    cases h

/-! ### What a move leaves behind -/

/-- A token of a move: one of layout, put in where the move stays, or one that spans the lexeme that is read. -/
inductive Yielded (state next : ScanState) : Token → Prop where
  | layout {kind : Kind} (hkind : kind = .indent ∨ kind = .dedent) (hstays : next.position = state.position) :
    Yielded state next (.synthetic kind state.position)
  | newline {text : List Char} (hlexeme : classify state.rest = some ⟨.lineEnd, text⟩)
    (hreads : next.position = state.position.advanceOver text) :
    Yielded state next (.spanning .newline text state.position)
  | word {kind : Kind} {text : List Char} (hlexeme : classify state.rest = some ⟨.token kind, text⟩)
    (hreads : next.position = state.position.advanceOver text) :
    Yielded state next (.spanning kind text state.position)

/-- Every token that a move leaves behind is one of these. -/
theorem Moves.yielded_of_mem {state next : ScanState} {events : List Event} {token : Token}
    (h : state.Moves events next) (hmem : token ∈ Event.tokens events) : Yielded state next token := by
  cases h with
  | skipsInMargin | skipsInLine | reports => simp at hmem
  | opens =>
    obtain rfl : token = .synthetic .indent state.position := by simpa using hmem
    exact .layout (.inl rfl) rfl
  | @settles measured lexeme closed kept | @misfits measured lexeme closed kept =>
    obtain ⟨-, rfl⟩ : closed ≠ [] ∧ token = .synthetic .dedent state.position := by simpa using hmem
    exact .layout (.inr rfl) rfl
  | endsLine hmode hlexeme =>
    obtain rfl : token = .spanning .newline _ state.position := by simpa using hmem
    exact .newline hlexeme rfl
  | yields hmode hlexeme =>
    obtain rfl : token = .spanning _ _ state.position := by simpa using hmem
    exact .word hlexeme rfl

/-- A move reports a fault where it is made, and in front of a token or a fault. -/
theorem Moves.exists_lexeme_of_mem {state next : ScanState} {events : List Event} {error : LocatedFault}
    (h : state.Moves events next) (hmem : error ∈ Event.errors events) :
    error.position = state.position ∧
      ∃ lexeme, classify state.rest = some lexeme ∧ lexeme.reading.isTrivia = false := by
  cases h with
  | misfits hmode hlexeme htrivia hblocks hclosed hkept hnarrow herror =>
    obtain rfl : error = _ := by simpa using hmem
    exact ⟨by rw [herror], _, hlexeme, htrivia⟩
  | reports hmode hlexeme =>
    obtain rfl : error = _ := by simpa using hmem
    exact ⟨rfl, _, hlexeme, rfl⟩
  | _ => simp at hmem

/-- A move stays where it is made, or it reads the lexeme there. -/
theorem Moves.stays_or_reads {state next : ScanState} {events : List Event} (h : state.Moves events next) :
    (next.rest = state.rest ∧ next.position = state.position) ∨
      ∃ lexeme mode, classify state.rest = some lexeme ∧ next = state.past lexeme.text mode := by
  cases h with
  | opens | settles | misfits => exact .inl ⟨rfl, rfl⟩
  | skipsInMargin hmode hlexeme | skipsInLine hmode hlexeme | endsLine hmode hlexeme | yields hmode hlexeme
  | reports hmode hlexeme => exact .inr ⟨_, _, hlexeme, rfl⟩

/-! ### Steps -/

/-- Some number of steps, one after another, with all that happens in them. -/
inductive Steps (state : ScanState) : List Event → ScanState → Prop where
  | refl : Steps state [] state
  | tail {events new : List Event} {middle next : ScanState} (hsteps : Steps state events middle)
      (hstep : middle.step = some (new, next)) : Steps state (events ++ new) next

/-- One step is some steps. -/
theorem Steps.single {state next : ScanState} {events : List Event}
    (h : state.step = some (events, next)) : Steps state events next :=
  .tail .refl h

/-- Steps go on from where others have led. -/
theorem Steps.trans {state middle last : ScanState} {events later : List Event}
    (hfirst : Steps state events middle) (hlater : Steps middle later last) :
    Steps state (events ++ later) last := by
  induction hlater with
  | refl => simpa using hfirst
  | tail _ hstep ih =>
    rw [← List.append_assoc]
    exact .tail ih hstep

/-- Whatever happens in some steps happens in one of them, from a state that the others lead to. -/
theorem Steps.exists_moves_of_mem {first state : ScanState} {events : List Event} {event : Event}
    (h : Steps first events state) (hmem : event ∈ events) :
    ∃ earlier middle new next, Steps first earlier middle ∧ middle.Moves new next ∧ event ∈ new := by
  induction h with
  | refl => cases hmem
  | @tail earlier new middle next hsteps hstep ih =>
    rcases List.mem_append.1 hmem with hmem | hmem
    · exact ih hmem
    · exact ⟨earlier, middle, new, next, hsteps, moves_of_step hstep, hmem⟩

/-- A run is some number of steps. -/
theorem steps_run (state : ScanState) : Steps state state.run.1 state.run.2 := by
  induction state using run.induct with
  | case1 state hstep =>
    rw [run_of_step_eq_none hstep]
    exact .refl
  | case2 state events next hstep ih =>
    rw [run_of_step hstep]
    exact (Steps.single hstep).trans ih

/-- The run of a state goes on with the run of every state that its steps lead to. -/
theorem Steps.run_eq {state next : ScanState} {events : List Event} (h : Steps state events next) :
    state.run = (events ++ next.run.1, next.run.2) := by
  induction h with
  | refl => rfl
  | tail _ hstep ih => rw [ih, run_of_step hstep, List.append_assoc]

/-- The steps of a scan, but no more than a number of them. It goes down with the number, so that runs over
fixed texts can be decided. -/
def runFor : Nat → ScanState → List Event × ScanState
  | 0, state => ([], state)
  | bound + 1, state =>
    match state.step with
    | none => ([], state)
    | some (events, next) => (events ++ (runFor bound next).1, (runFor bound next).2)

/-- A run is over when its bound is reached. -/
theorem run_eq_runFor {bound : Nat} {state : ScanState} (h : state.stepBound ≤ bound) :
    state.run = state.runFor bound := by
  induction bound generalizing state with
  | zero =>
    cases hstep : state.step with
    | none => exact run_of_step_eq_none hstep
    | some result =>
      have hless := stepBound_lt_of_step hstep
      omega
  | succ bound ih =>
    cases hstep : state.step with
    | none => rw [run_of_step_eq_none hstep, runFor, hstep]
    | some result =>
      have hless := stepBound_lt_of_step hstep
      rw [run_of_step hstep, ih (by omega), runFor, hstep]

/-- No step follows a run. -/
theorem step_run (state : ScanState) : state.run.2.step = none := by
  induction state using run.induct with
  | case1 state hstep => rwa [run_of_step_eq_none hstep]
  | case2 state events next hstep ih => rwa [run_of_step hstep]

/-- The last state of a scan has read the text or has halted. -/
theorem rest_eq_nil_or_halted (source : List Char) :
    (initial source).run.2.rest = [] ∨ (initial source).run.2.mode = .halted :=
  (step_eq_none_iff _).1 (step_run _)

end Offside.ScanState
