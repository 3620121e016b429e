import Offside.Proofs.Layout.Reading
import Offside.Proofs.Scan.Blocks

/-!
# Scanning printed lines

The scan of a printed text gives the tokens of its layout. The stack of the layout is the open blocks of
the scan with the outermost level below them, and each line does to the one what it does to the other.

The proof goes over the lines from the first one on. A layout stops where a margin misfits, and the scan
halts there with the same tokens left to yield.
-/

namespace Offside

namespace Layout

section Stacks

variable {blocks : List Nat} {width : Nat}

/-- The top of a stack is the width of the innermost block. -/
theorem headD_stack (blocks : List Nat) : (blocks ++ [0]).headD 0 = innermost blocks := by
  cases blocks <;> rfl

/-- Popping takes the blocks that are wider than a line, down to the first that is not. -/
theorem popWider_append {closed kept : List Nat} (hclosed : ∀ level ∈ closed, width < level)
    (hkept : innermost kept ≤ width) :
    popWider width (closed ++ kept ++ [0]) = (closed.map fun _ => dedentForm, kept ++ [0]) := by
  induction closed with
  | nil =>
    cases kept with
    | nil => rfl
    | cons level kept => exact if_neg (Nat.not_lt.2 hkept)
  | cons level closed ih =>
    obtain ⟨hlevel, hclosed⟩ := List.forall_mem_cons.1 hclosed
    rw [List.cons_append, List.cons_append, popWider, if_pos hlevel, ih hclosed]
    rfl

/-- Popping takes the blocks that a line of the width closes. -/
theorem popWider_stack (width : Nat) (blocks : List Nat) :
    popWider width (blocks ++ [0]) =
      ((blocks.takeWhile (width < ·)).map fun _ => dedentForm, blocks.dropWhile (width < ·) ++ [0]) := by
  have hclosed : ∀ level ∈ blocks.takeWhile (width < ·), width < level :=
    fun level hlevel => by simpa using List.mem_takeWhile_imp hlevel
  have hpopped := popWider_append hclosed (ScanState.innermost_dropWhile_le blocks width)
  rwa [List.takeWhile_append_dropWhile] at hpopped

example : popWider 4 [8, 4, 0] = ([dedentForm], [4, 0]) := by decide

/-- Unwinding gives one token for each open block. -/
theorem unwind_stack (hpositive : ∀ level ∈ blocks, 0 < level) :
    unwind (blocks ++ [0]) = blocks.map (fun _ => dedentForm) ++ [endForm] := by
  have hall : blocks.filter (0 < ·) = blocks := by simpa [List.filter_eq_self] using hpositive
  rw [unwind, List.filter_append, hall]
  simp

/-- The tokens that end a scan are those of unwinding its blocks. -/
theorem forms_finish {state : ScanState} (hpositive : ∀ level ∈ state.blocks, 0 < level) :
    (Event.tokens state.finish).map Token.form = unwind (state.blocks ++ [0]) := by
  rw [ScanState.tokens_finish, unwind_stack hpositive, List.map_append, List.map_map]
  rfl

end Stacks

/-- What the layout of a statement does to its stack is what the line does to the open blocks. -/
theorem layOut_logical (blocks : List Nat) (before : List Char) (statement : Statement) (lines : List Line) :
    layOut (blocks ++ [0]) before (.logical statement :: lines) =
      let width := indentWidth statement.margin.text
      let behind := before ++ (Line.logical statement).print
      match shift blocks width with
      | .opens => (layOut (width :: blocks ++ [0]) behind lines).prepend (indentForm :: statement.forms)
      | .settles closed kept =>
        (layOut (kept ++ [0]) behind lines).prepend (closed.map (fun _ => dedentForm) ++ statement.forms)
      | .misfits closed kept =>
        ⟨closed.map (fun _ => dedentForm) ++ unwind (kept ++ [0]),
          some ⟨width, levels blocks, before ++ statement.margin.text⟩⟩ := by
  have hlevels : (blocks ++ [0]).reverse = levels blocks := by simp [levels]
  simp only [layOut, shift, headD_stack, popWider_stack, hlevels]
  by_cases hwider : innermost blocks < indentWidth statement.margin.text
  · simp [hwider]
  by_cases hfits : innermost (blocks.dropWhile (indentWidth statement.margin.text < ·)) =
      indentWidth statement.margin.text
  · simp [hwider, hfits]
  · simp [hwider, hfits]

/-- What a scan yields after some events is the outcome of a layout. -/
structure EndsAs (source : List Char) (events : List Event) (outcome : Outcome) : Prop where
  forms : (tokensOf source).map Token.form = (Event.tokens events).map Token.form ++ outcome.forms
  faults : faultsOf source = Event.errors events ++ outcome.stop?.toList.map Stop.fault

/-- What is read first stands in front of the outcome of the rest. -/
theorem EndsAs.of_reads {source : List Char} {events : List Event} {view next : View}
    {position : Position} {forms : List Form} {outcome : Outcome} (hreads : Reads view forms next)
    (hsteps : ScanState.Steps (.initial source) events (view.stateAt position))
    (hrest : ∀ events position, ScanState.Steps (.initial source) events (next.stateAt position) →
      EndsAs source events outcome) :
    EndsAs source events (outcome.prepend forms) := by
  obtain ⟨later, position', hsteps', hforms, herrors⟩ := hreads position
  have hends := hrest _ _ (hsteps.trans hsteps')
  constructor
  · rw [hends.forms, Event.tokens_append, List.map_append, hforms, List.append_assoc]
    rfl
  · rw [hends.faults, Event.errors_append, herrors, List.append_nil]
    rfl

section Lines

variable {source before : List Char} {events : List Event} {position : Position}

/-- A scan ends as a layout that stops, where a margin misfits. -/
theorem endsAs_of_misfits {after : List Char} {blocks closed kept : List Nat} {measured : Option Nat}
    {lexeme : Lexeme} (hsource : source = before ++ after) (hlexeme : classify after = some lexeme)
    (htrivia : lexeme.reading.isTrivia = false)
    (hshift : shift blocks (measured.getD 0) = .misfits closed kept)
    (hsteps : ScanState.Steps (.initial source) events
      (View.stateAt ⟨after, blocks, .margin measured⟩ position)) :
    EndsAs source events ⟨closed.map (fun _ => dedentForm) ++ unwind (kept ++ [0]),
      some ⟨measured.getD 0, levels blocks, before⟩⟩ := by
  obtain ⟨later, hsteps', hforms, herrors⟩ := halts_of_margin hlexeme htrivia hshift position
  have hall := hsteps.trans hsteps'
  have hpositive := (ScanState.KeepsBlocks.of_steps hall).nested.positive
  obtain ⟨htokens, hfaults⟩ := eq_of_steps_of_step_eq_none hall rfl
  refine ⟨?_, ?_⟩
  · rw [htokens, List.map_append, Event.tokens_append, List.map_append, hforms, forms_finish hpositive,
      List.append_assoc]
    rfl
  · rw [hfaults, Event.errors_append, herrors, position_eq_of_steps hsource hsteps]
    rfl

end Lines

/-- A scan in front of some lines ends as their layout. -/
theorem endsAs_layOut {source before : List Char} {lines : List Line} {events : List Event}
    {position : Position} {blocks : List Nat} (hsource : source = before ++ print lines)
    (hsteps : ScanState.Steps (.initial source) events
      (View.stateAt ⟨print lines, blocks, .margin none⟩ position)) :
    EndsAs source events (layOut (blocks ++ [0]) before lines) := by
  induction lines generalizing before events position blocks with
  | nil =>
    have hpositive := (ScanState.KeepsBlocks.of_steps hsteps).nested.positive
    obtain ⟨htokens, hfaults⟩ := eq_of_steps_of_step_eq_none hsteps rfl
    refine ⟨?_, by rw [hfaults]; exact (List.append_nil _).symm⟩
    rw [htokens, List.map_append, forms_finish hpositive]
    rfl
  | cons line lines ih =>
    have hprint : print (line :: lines) = line.print ++ print lines := List.flatMap_cons
    have hbehind : source = before ++ line.print ++ print lines := by
      rw [hsource, hprint, List.append_assoc]
    cases line with
    | blank margin remark? =>
      rw [hprint] at hsteps
      exact .of_reads (reads_blank margin remark? (print lines) blocks) hsteps fun _ _ => ih hbehind
    | logical statement =>
      obtain ⟨lexeme, hlexeme, htrivia⟩ := classify_joinWords statement.nonempty (separates_lineFeed (print lines))
      obtain ⟨measured, hwidth, hmargin⟩ := reads_margin statement.margin blocks
        (isBlank_head?_joinWords statement.nonempty ('\n' :: print lines))
      have hsplit : print (.logical statement :: lines) =
          statement.margin.text ++ (joinWords statement.words ++ '\n' :: print lines) := by
        rw [hprint, Line.print, List.append_assoc, List.append_assoc]
        rfl
      rw [hsplit] at hsteps
      rw [layOut_logical, ← hwidth]
      dsimp only
      cases hshift : shift blocks (measured.getD 0) with
      | opens =>
        have hreads := (hmargin.trans (reads_indent hlexeme htrivia hshift)).trans
          (reads_statement statement (print lines) _)
        exact .of_reads hreads hsteps fun _ _ => ih hbehind
      | settles closed kept =>
        have hreads := (hmargin.trans (reads_dedents hlexeme htrivia hshift)).trans
          (reads_statement statement (print lines) _)
        exact .of_reads hreads hsteps fun _ _ => ih hbehind
      | misfits closed kept =>
        have hfront : source =
            before ++ statement.margin.text ++ (joinWords statement.words ++ '\n' :: print lines) := by
          rw [hsource, hsplit, List.append_assoc]
        exact .of_reads hmargin hsteps fun _ _ => endsAs_of_misfits hfront hlexeme htrivia hshift

/-- An analysis succeeds when it has no fault to report. -/
theorem exists_analyze_eq_ok_iff (source : List Char) :
    (∃ tokens, analyze source = .ok tokens) ↔ faultsOf source = [] := by
  simp [analyze_eq_ok_iff]

/-- The scan of a printed text is its layout: its tokens are those of the layout, and its only fault is
where the layout stops. -/
theorem scan_print_eq_layOut (lines : List Line) :
    (tokensOf (print lines)).map Token.form = (layOutText lines).forms ∧
      faultsOf (print lines) = (layOutText lines).stop?.toList.map Stop.fault ∧
      ((∃ tokens, analyze (print lines) = .ok tokens) ↔ (layOutText lines).stop? = none) := by
  have hends : EndsAs (print lines) [] (layOutText lines) :=
    @endsAs_layOut _ [] lines [] .start [] rfl .refl
  refine ⟨hends.forms, hends.faults, ?_⟩
  rw [exists_analyze_eq_ok_iff, hends.faults]
  cases (layOutText lines).stop? <;> simp

/-- A block with a comment in it, and behind it a line that is wider than the outermost level but fits no block. -/
def brokenBlock : List Line :=
  [.logical
    { margin := ⟨[], by simp⟩
      words :=
        [⟨.keyword .kwIf, "if".toList, rfl⟩, ⟨.identifier, "a".toList, rfl⟩, ⟨.delimiter .colon, ":".toList, rfl⟩]
      nonempty := List.cons_ne_nil _ _
      balanced := rfl },
   .blank ⟨"    ".toList, by simp [Text.isBlank]⟩ (some ⟨" b".toList, by simp [Text.isLineEnd]⟩),
   .logical
    { margin := ⟨"    ".toList, by simp [Text.isBlank]⟩
      words := [⟨.identifier, "x".toList, rfl⟩]
      nonempty := List.cons_ne_nil _ _
      balanced := rfl },
   .logical
    { margin := ⟨"  ".toList, by simp [Text.isBlank]⟩
      words := [⟨.identifier, "y".toList, rfl⟩]
      nonempty := List.cons_ne_nil _ _
      balanced := rfl }]

example : print brokenBlock = "if a :\n    # b\n    x\n  y\n".toList := by decide

example : (layOutText brokenBlock).forms.map Form.kind =
      [.keyword .kwIf, .identifier, .delimiter .colon, .newline, .indent, .identifier, .newline, .dedent,
       .endOfInput] ∧
    (layOutText brokenBlock).stop? = some ⟨2, [0, 4], "if a :\n    # b\n    x\n  ".toList⟩ := by decide

example : faultsOf (print brokenBlock) = [⟨.inconsistentDedent 2 [0, 4], ⟨4, 2, 23⟩⟩] := by
  rw [faultsOf_eq_runFor]
  decide +kernel

end Layout

end Offside
