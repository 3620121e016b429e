import Offside.Proofs.Lexeme.TrailingBlanks
import Offside.Proofs.Scan.LogicalLines
import Offside.Proofs.Scan.Truncation

/-!
# Scans of texts with blanks behind them

Blanks behind a text change none of its tokens and faults, however the text ends. Only the tokens that end the scan
stand further on, if the scan comes to the end of the text at all.

The scans with and without the blanks take the same steps while there is some of the text left. The last of them may
take in the blanks along with the end of the text, and if not, one more step skips them. Neither leaves an event. A
scan that halts at a misfit never comes to the blanks.
-/

namespace Offside

open Text Lexeme

namespace ScanState

variable {source blanks : List Char} {own state next : ScanState} {events : List Event} {lexeme : Lexeme}

/-- A blank or a comment is skipped, in a margin and behind it. -/
theorem exists_step_of_skipped (hmode : state.mode ≠ .halted) (hlexeme : classify state.rest = some lexeme)
    (hskipped : lexeme.reading = .blank ∨ lexeme.reading = .comment) :
    ∃ mode, state.step = some ([], state.past lexeme.text mode) := by
  cases hcase : state.mode with
  | margin measured =>
    have htrivia : lexeme.reading.isTrivia = true := by rcases hskipped with h | h <;> rw [h] <;> rfl
    exact ⟨_, step_of_trivia hcase hlexeme htrivia⟩
  | line depth =>
    refine ⟨.line depth, ?_⟩
    rw [step_of_line hcase hlexeme, readLine]
    rcases hskipped with h | h <;> rw [h]
  | halted => exact absurd hcase hmode

/-- How the scan of a text with blanks behind it stands to the scan of the text. -/
inductive Trails (blanks : List Char) (own state : ScanState) : Prop where
  /-- The blanks are left unread. -/
  | ahead (hstate : state = own.withRest (own.rest ++ blanks))
  /-- The blanks are read, and so is all of the text. -/
  | past (mode : Mode) (hrest : own.rest = [])
      (hstate : state = { own with position := own.position.advanceOver blanks, mode })

/-- Where nothing but the blanks is left, a step skips them. -/
theorem Trails.of_rest_eq_nil (hblank : ∀ c ∈ blanks, isBlank c = true) (hrest : own.rest = [])
    (hstep : (own.withRest (own.rest ++ blanks)).step = some (events, next)) : events = [] ∧ Trails blanks own next := by
  obtain ⟨lexeme, hlexeme⟩ := exists_classify_of_step hstep
  have hread : classify (own.withRest (own.rest ++ blanks)).rest = some ⟨.blank, blanks⟩ := by
    have hne := (isFront_of_classify hlexeme).window_ne_nil
    simp only [withRest, hrest, List.nil_append] at hne ⊢
    exact classify_all_blanks hne hblank
  obtain ⟨mode, hskips⟩ := exists_step_of_skipped (moves_of_step hstep).mode_ne_halted hread (.inl rfl)
  cases hstep.symm.trans hskips
  exact ⟨rfl, .past mode hrest (by simp [ScanState.past, withRest, hrest])⟩

/-- A step up to a lexeme that is a piece of the text is a step without the blanks. -/
theorem Trails.of_fits (hrest : own.rest ≠ []) (hlexeme : classify (own.rest ++ blanks) = some lexeme)
    (hfront : lexeme.text <+: own.rest) (hstep : (own.withRest (own.rest ++ blanks)).step = some (events, next)) :
    ∃ last, own.step = some (events, last) ∧ Trails blanks last next := by
  obtain ⟨left, hleft⟩ := hfront
  obtain ⟨after, hafter⟩ : ∃ after, next.rest = after ++ blanks := by
    rcases (moves_of_step hstep).stays_or_reads with ⟨hstays, -⟩ | ⟨other, mode, hother, rfl⟩
    · exact ⟨own.rest, hstays⟩
    · obtain rfl := Option.some.inj (hlexeme.symm.trans hother)
      exact ⟨left, by simp [ScanState.past, withRest, ← hleft]⟩
  have hown := step_withRest hstep rfl hrest hafter
  exact ⟨_, hown, .ahead (congrArg next.withRest hafter)⟩

/-- A step over the end of the text and the blanks is a step over the end of the text without them. -/
theorem Trails.of_covers (hblank : ∀ c ∈ blanks, isBlank c = true)
    (hlexeme : classify (own.rest ++ blanks) = some lexeme) (hwhole : lexeme.text = own.rest ++ blanks)
    (hskipped : lexeme.reading = .blank ∨ lexeme.reading = .comment)
    (hown : classify own.rest = some ⟨lexeme.reading, own.rest⟩)
    (hstep : (own.withRest (own.rest ++ blanks)).step = some (events, next)) :
    ∃ last, own.step = some (events, last) ∧ Trails blanks last next := by
  have hmode := (moves_of_step hstep).mode_ne_halted
  obtain ⟨mode, hskips⟩ := exists_step_of_skipped hmode hlexeme hskipped
  obtain ⟨mode', hskips'⟩ := @exists_step_of_skipped own _ hmode hown hskipped
  cases hstep.symm.trans hskips
  refine ⟨_, hskips', .past mode (by simp [ScanState.past]) ?_⟩
  simp [ScanState.past, withRest, hwhole, Position.advanceOver_append _ (not_cutsPair_of_isBlank hblank _)]

/-- A step with the blanks behind the text is a step without them, or it skips blanks where nothing else is left. -/
theorem Trails.step (h : Trails blanks own state) (hblank : ∀ c ∈ blanks, isBlank c = true)
    (hstep : state.step = some (events, next)) : ∃ last, Steps own events last ∧ Trails blanks last next := by
  obtain ⟨lexeme, hlexeme⟩ := exists_classify_of_step hstep
  cases h with
  | past mode hrest hstate =>
    rw [hstate, hrest] at hlexeme
    cases hlexeme
  | ahead hstate =>
    subst hstate
    by_cases hrest : own.rest = []
    · obtain ⟨rfl, htrails⟩ := Trails.of_rest_eq_nil hblank hrest hstep
      exact ⟨own, .refl, htrails⟩
    · suffices htaken : ∃ last, own.step = some (events, last) ∧ Trails blanks last next by
        obtain ⟨last, hown, htrails⟩ := htaken
        exact ⟨last, .single hown, htrails⟩
      cases meets_of_classify hblank hrest hlexeme with
      | fits hfront => exact Trails.of_fits hrest hlexeme hfront hstep
      | covers hwhole hskipped hown => exact Trails.of_covers hblank hlexeme hwhole hskipped hown hstep

/-- The states of a scan trail those of the scan of the text without the blanks behind it. -/
theorem Steps.exists_trails (h : Steps (initial (source ++ blanks)) events state)
    (hblank : ∀ c ∈ blanks, isBlank c = true) :
    ∃ own, Steps (initial source) events own ∧ Trails blanks own state := by
  induction h with
  | refl => exact ⟨_, .refl, .ahead rfl⟩
  | tail hsteps hstep ih =>
    obtain ⟨own, hown, htrails⟩ := ih
    obtain ⟨last, hlast, htrails'⟩ := htrails.step hblank hstep
    exact ⟨last, hown.trans hlast, htrails'⟩

/-- Where no step follows with the blanks, none follows without them. -/
theorem Trails.step_eq_none (h : Trails blanks own state) (hend : state.step = none) : own.step = none := by
  rw [step_eq_none_iff] at hend ⊢
  cases h with
  | past mode hrest hstate => exact .inl hrest
  | ahead hstate =>
    rw [hstate] at hend
    exact hend.imp (fun hrest => (List.append_eq_nil_iff.1 hrest).1) id

/-- The tokens that end a scan, put in behind all of the text and the blanks. -/
theorem Trails.finish_of_rest (h : Trails blanks own state) (hrest : state.rest = []) :
    Event.tokens state.finish = endTokens own.blocks.length (own.position.advanceOver blanks) := by
  cases h with
  | past mode hown hstate => rw [hstate, tokens_finish_eq]
  | ahead hstate =>
    rw [hstate] at hrest
    obtain ⟨-, hnil⟩ := List.append_eq_nil_iff.1 hrest
    rw [hstate, tokens_finish_eq, hnil, Position.advanceOver_nil]
    rfl

/-- The tokens that end a scan in front of some of the text are put in where they are without the blanks. -/
theorem Trails.finish_eq (h : Trails blanks own state) (hrest : own.rest ≠ []) :
    Event.tokens state.finish = Event.tokens own.finish := by
  cases h with
  | past mode hown hstate => exact absurd hown hrest
  | ahead hstate => rw [hstate]; rfl

end ScanState

open ScanState

/-- Blanks behind a text change none of its faults and tokens. Only the tokens that end the scan stand behind the
blanks, unless a misfit has ended it before. -/
theorem scan_append_blanks {source blanks : List Char} (hblank : ∀ c ∈ blanks, isBlank c = true) :
    faultsOf (source ++ blanks) = faultsOf source ∧
      ∃ front opened position, tokensOf source = front ++ endTokens opened position ∧
        ((∀ place width expected, ⟨.inconsistentDedent width expected, place⟩ ∉ faultsOf source) →
          tokensOf (source ++ blanks) = front ++ endTokens opened (position.advanceOver blanks)) ∧
        ∀ place width expected, ⟨.inconsistentDedent width expected, place⟩ ∈ faultsOf source →
          tokensOf (source ++ blanks) = tokensOf source := by
  have hend := step_run (.initial (source ++ blanks))
  obtain ⟨own, hown, htrails⟩ := (steps_run (.initial (source ++ blanks))).exists_trails hblank
  have hend' := htrails.step_eq_none hend
  have hrun : (ScanState.initial source).run.2 = own := by rw [hown.run_eq, run_of_step_eq_none hend']
  obtain ⟨htokens, hfaults⟩ := eq_of_steps_of_step_eq_none hown hend'
  rw [← faultsOf_eq_run] at hfaults
  refine ⟨hfaults.symm, Event.tokens (ScanState.initial (source ++ blanks)).run.1, own.blocks.length, own.position,
    ?_, fun hnone => ?_, fun place width expected hmem => ?_⟩
  · rw [htokens, tokens_finish_eq]
  · rw [tokensOf_eq_run, htrails.finish_of_rest]
    refine (runs_to_end fun place width expected => ?_).1
    rw [← hfaults]
    exact hnone place width expected
  · obtain ⟨-, hrest, -⟩ := halts_at_misfit hmem
    rw [tokensOf_eq_run, htrails.finish_eq (hrun ▸ hrest), htokens]

/-- A quote that nothing closes with a backslash behind it, which the first blank would be taken along by. -/
theorem scan_append_blanks_behind_backslash :
    faultsOf "a\n  \"\\ \t".toList =
        [⟨.unterminatedString '"', ⟨2, 2, 4⟩⟩, ⟨.unrecognisedCharacter '\\', ⟨2, 3, 5⟩⟩] ∧
      ∃ front opened, tokensOf "a\n  \"\\".toList = front ++ endTokens opened ⟨2, 4, 6⟩ ∧
        tokensOf "a\n  \"\\ \t".toList = front ++ endTokens opened ⟨2, 6, 8⟩ := by
  have hfaults : faultsOf "a\n  \"\\".toList =
      [⟨.unterminatedString '"', ⟨2, 2, 4⟩⟩, ⟨.unrecognisedCharacter '\\', ⟨2, 3, 5⟩⟩] := by
    rw [faultsOf_eq_runFor]
    decide +kernel
  have hstop : (tokensOf "a\n  \"\\".toList).getLast?.map Token.start = some ⟨2, 4, 6⟩ := by
    rw [tokensOf_eq_runFor]
    decide +kernel
  obtain ⟨hsame, front, opened, position, htokens, hbehind, -⟩ :=
    @scan_append_blanks "a\n  \"\\".toList " \t".toList (List.all_eq_true.1 (by decide))
  obtain rfl : position = ⟨2, 4, 6⟩ := by
    rw [htokens, endTokens, ← List.append_assoc, List.getLast?_concat] at hstop
    exact Option.some.inj hstop
  refine ⟨hsame.trans hfaults, front, opened, htokens, hbehind fun place width expected hmem => ?_⟩
  rw [hfaults] at hmem
  simp at hmem

end Offside
