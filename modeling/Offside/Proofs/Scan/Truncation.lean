import Offside.Proofs.Lexeme.Cut
import Offside.Proofs.Scan.Positions

/-!
# Scans of a front of a text

A scan of a text goes through the same states as the scan of a front of it, as long as it has not read
beyond the front. Every lexeme that fits in the front is read there alike, and a margin that is left in
the front is left at a token or a fault in both scans.

A scan that halts at a misfit stands where the front in front of it ends. The scan of that front has
nothing left to read there, and closes in the end the blocks that the other closes in two parts.
-/

namespace Offside

open Text

namespace ScanState

/-- The state with another text left. -/
def withRest (state : ScanState) (rest : List Char) : ScanState :=
  { state with rest }

variable {state next : ScanState} {events : List Event} {rest left after : List Char}

/-- Leaving a margin does not look at the text that is left. -/
theorem enterLine_withRest (state : ScanState) (rest : List Char) (width : Nat) :
    (state.withRest rest).enterLine width =
      ((state.enterLine width).1, (state.enterLine width).2.withRest rest) := by
  unfold enterLine
  simp only [withRest]
  split <;> rfl

/-- Behind a text at the front, what follows it is left. -/
theorem past_withRest (state : ScanState) (text rest : List Char) (mode : Mode) :
    (state.withRest (text ++ rest)).past text mode = (state.past text mode).withRest rest := by
  simp [past, withRest]

/-- Reading a lexeme does not look at the text behind it. -/
theorem readLine_withRest (state : ScanState) (rest : List Char) (depth : Nat) (lexeme : Lexeme) :
    (state.withRest (lexeme.text ++ rest)).readLine depth lexeme =
      ((state.readLine depth lexeme).1, (state.readLine depth lexeme).2.withRest rest) := by
  unfold readLine
  simp only [past_withRest]
  split <;> try rfl
  split <;> rfl

/-- Reading a lexeme leaves the text behind it. -/
theorem rest_readLine (state : ScanState) (depth : Nat) (lexeme : Lexeme) :
    (state.readLine depth lexeme).2.rest = state.rest.drop lexeme.text.length := by
  unfold readLine
  split <;> try rfl
  split <;> rfl

/-- A lexeme that leaves the text behind a cut is read in front of the cut as well. -/
theorem classify_of_left {lexeme : Lexeme} (hrest : state.rest = rest ++ after)
    (hlexeme : classify state.rest = some lexeme)
    (hleft : state.rest.drop lexeme.text.length = left ++ after) :
    rest = lexeme.text ++ left ∧ classify rest = some lexeme := by
  have hsplit : state.rest = lexeme.text ++ (left ++ after) := by
    rw [← hleft]
    exact List.prefix_iff_eq_append.1 (isFront_of_classify hlexeme).2 |>.symm
  have hsame : rest = lexeme.text ++ left := by
    refine List.append_cancel_right (?_ : rest ++ after = _ ++ after)
    rw [← hrest, hsplit, List.append_assoc]
  refine ⟨hsame, ?_⟩
  rw [hsame]
  rw [hsplit] at hlexeme
  exact classify_of_append hlexeme

/-- A step that stays in front of a cut is taken without what stands behind the cut. -/
theorem step_withRest (hstep : state.step = some (events, next)) (hrest : state.rest = rest ++ after)
    (hne : rest ≠ []) (hleft : next.rest = left ++ after) :
    (state.withRest rest).step = some (events, next.withRest left) := by
  obtain ⟨lexeme, hlexeme⟩ := exists_classify_of_step hstep
  cases hmode : state.mode with
  | margin measured =>
    cases htrivia : lexeme.reading.isTrivia with
    | true =>
      rw [step_of_trivia hmode hlexeme htrivia] at hstep
      cases hstep
      obtain ⟨rfl, hfront⟩ := classify_of_left hrest hlexeme hleft
      rw [← past_withRest]
      exact step_of_trivia hmode hfront htrivia
    | false =>
      rw [step_of_proper hmode hlexeme htrivia] at hstep
      have hnext := Option.some.inj hstep
      have hsame : left = rest := by
        refine List.append_cancel_right (?_ : left ++ after = rest ++ after)
        rw [← hleft, ← hrest, ← rest_enterLine state (measured.getD 0), hnext]
      rw [hrest] at hlexeme
      obtain ⟨other, hother, htrivia'⟩ := exists_proper_of_append hlexeme htrivia hne
      rw [@step_of_proper (state.withRest rest) measured other hmode hother htrivia',
        enterLine_withRest, hnext, hsame]
  | line depth =>
    rw [step_of_line hmode hlexeme] at hstep
    have hnext := Option.some.inj hstep
    have hdrop : state.rest.drop lexeme.text.length = left ++ after := by
      rw [← rest_readLine state depth, hnext, hleft]
    obtain ⟨rfl, hfront⟩ := classify_of_left hrest hlexeme hdrop
    rw [@step_of_line (state.withRest (lexeme.text ++ left)) depth lexeme hmode hfront,
      readLine_withRest, hnext]
  | halted =>
    simp only [step, hmode] at hstep
    cases hstep

/-- What is left after a move was left before it. -/
theorem Moves.suffix (h : state.Moves events next) : next.rest <:+ state.rest := by
  cases h with
  | opens | settles | misfits => exact List.suffix_refl _
  | _ => exact List.drop_suffix _ _

/-- A move that ends in a margin has read something. -/
theorem Moves.length_lt_of_margin {measured : Option Nat} (h : state.Moves events next)
    (hmode : next.mode = .margin measured) : next.rest.length < state.rest.length := by
  cases h with
  | skipsInMargin hmargin hlexeme htrivia => exact length_drop_lt_of_classify hlexeme
  | endsLine hline hlexeme => exact length_drop_lt_of_classify hlexeme
  | _ => cases hmode

/-- A state of a scan that is still in front of a cut is one of the scan of the text in front of the cut.
At the cut itself this holds in a margin, which that scan has not left. -/
theorem Steps.withRest {front : List Char} (h : Steps (initial (front ++ after)) events state)
    (hrest : state.rest = rest ++ after) (hmargin : rest = [] → ∃ measured, state.mode = .margin measured) :
    Steps (initial front) events (state.withRest rest) := by
  induction h generalizing rest with
  | refl =>
    obtain rfl : front = rest := List.append_cancel_right hrest
    exact .refl
  | @tail events new middle next hsteps hstep ih =>
    have hmoves := moves_of_step hstep
    obtain ⟨text, htext⟩ := hmoves.suffix
    have hmiddle : middle.rest = text ++ rest ++ after := by rw [← htext, hrest, List.append_assoc]
    have hne : text ++ rest ≠ [] := by
      intro hnil
      obtain ⟨rfl, rfl⟩ := List.append_eq_nil_iff.1 hnil
      obtain ⟨measured, hmode⟩ := hmargin rfl
      have hshorter := hmoves.length_lt_of_margin hmode
      rw [← htext] at hshorter
      exact Nat.lt_irrefl _ hshorter
    have hfront := ih hmiddle fun hnil => absurd hnil hne
    exact .tail hfront (step_withRest hstep hmiddle hne hrest)

/-- A scan has halted by leaving a margin that misfits. -/
theorem Steps.exists_misfits {source : List Char} (h : Steps (initial source) events state)
    (hhalted : state.mode = .halted) :
    ∃ earlier middle measured closed kept, Steps (initial source) earlier middle ∧
      middle.mode = .margin measured ∧ middle.blocks = closed ++ kept ∧
      state = { middle with blocks := kept, mode := .halted } ∧
      Event.tokens events =
        Event.tokens earlier ++ closed.map (fun _ => .synthetic .dedent middle.position) ∧
      Event.errors events = Event.errors earlier ++
        [⟨.inconsistentDedent (measured.getD 0) (levels middle.blocks), middle.position⟩] := by
  cases h with
  | refl => cases hhalted
  | @tail earlier new middle _ hsteps hstep =>
    cases moves_of_step hstep with
    | @misfits measured lexeme closed kept error hmode hlexeme htrivia hblocks hclosed hkept hnarrow herror =>
      refine ⟨earlier, middle, measured, closed, kept, hsteps, hmode, hblocks, rfl, ?_, ?_⟩
      · simp
      · simp [herror]
    | skipsInMargin hmode hlexeme htrivia =>
      simp only [past, marginBehind] at hhalted
      split at hhalted <;> cases hhalted
    | _ => cases hhalted

end ScanState

/-- A scan that halts at a misfit has the tokens of the text in front of it, and its faults but for the
misfit. The scan of that text ends in a margin at the same place, and what the misfit says is read off
there. -/
theorem exists_front_of_misfit {source : List Char} {position : Position} {width : Nat} {expected : List Nat}
    (h : ⟨.inconsistentDedent width expected, position⟩ ∈ faultsOf source) :
    ∃ front blocks measured, takeBytes? position.index source = some front ∧
      (ScanState.initial front).run.2 = ⟨[], position, blocks, .margin measured⟩ ∧
      width = measured.getD 0 ∧ expected = levels blocks ∧ tokensOf source = tokensOf front ∧
      faultsOf source = faultsOf front ++ [⟨.inconsistentDedent width expected, position⟩] := by
  obtain ⟨hhalted, -, hposition, earlierFaults, hfaults, -⟩ := halts_at_misfit h
  obtain ⟨earlier, middle, measured, closed, kept, hsteps, hmode, hblocks, hlast, htokens, herrors⟩ :=
    (ScanState.steps_run (.initial source)).exists_misfits hhalted
  obtain ⟨front, hsource, hmark⟩ := (ScanState.Tracks.of_steps hsteps).cut
  obtain rfl : middle.position = position := by rw [← hposition, hlast]
  have hcut : ScanState.Steps (.initial front) earlier (middle.withRest []) := by
    rw [hsource] at hsteps
    exact hsteps.withRest rfl fun _ => ⟨measured, hmode⟩
  have hend : (middle.withRest []).step = none := (ScanState.step_eq_none_iff _).2 (.inl rfl)
  obtain ⟨htokens', hfaults'⟩ := eq_of_steps_of_step_eq_none hcut hend
  rw [← faultsOf_eq_run] at herrors
  rw [hfaults] at herrors
  obtain ⟨hearlier, hmisfit⟩ := List.append_inj' herrors rfl
  cases hmisfit
  refine ⟨front, middle.blocks, measured, ?_, ?_, rfl, rfl, ?_, ?_⟩
  · rw [hsource]
    exact hmark.boundary
  · rw [hcut.run_eq, ScanState.run_of_step_eq_none hend]
    obtain ⟨unread, place, blocks, mode⟩ := middle
    cases hmode
    rfl
  · rw [tokensOf_eq_run, htokens, hlast, htokens', ScanState.tokens_finish, ScanState.tokens_finish,
      ScanState.withRest, hblocks, List.map_append, List.append_assoc, List.append_assoc]
  · rw [hfaults, hearlier, hfaults']

/-- A scan that halts at a misfit is the scan of the text in front of the misfit, which is its last fault and
its only fatal one. Every other text with this front that misfits at its end has the same scan. -/
theorem scan_truncates_at_misfit {source : List Char} {position : Position} {width : Nat}
    {expected : List Nat} (h : ⟨.inconsistentDedent width expected, position⟩ ∈ faultsOf source) :
    ∃ front, takeBytes? position.index source = some front ∧ tokensOf source = tokensOf front ∧
      faultsOf source = faultsOf front ++ [⟨.inconsistentDedent width expected, position⟩] ∧
      (∀ error ∈ faultsOf front, error.isFatal = false) ∧
      ∀ other position' width' expected', front <+: other → position'.index = position.index →
        ⟨.inconsistentDedent width' expected', position'⟩ ∈ faultsOf other →
          tokensOf other = tokensOf source ∧ faultsOf other = faultsOf source := by
  obtain ⟨front, blocks, measured, hfront, hlast, hwidth, hexpected, htokens, hfaults⟩ :=
    exists_front_of_misfit h
  obtain ⟨-, -, -, earlier, hfaults', hearlier⟩ := halts_at_misfit h
  refine ⟨front, hfront, htokens, hfaults, ?_, ?_⟩
  · rw [(List.append_inj' (hfaults.symm.trans hfaults') rfl).1]
    exact hearlier
  · rintro other position' width' expected' ⟨after, rfl⟩ hindex h'
    obtain ⟨front', blocks', measured', hfront', hlast', hwidth', hexpected', htokens', hfaults'⟩ :=
      exists_front_of_misfit h'
    obtain rfl : front = front' := by
      rw [hindex, ← byteLength_of_takeBytes? hfront, takeBytes?_append] at hfront'
      exact Option.some.inj hfront'
    rw [hlast] at hlast'
    cases hlast'
    rw [hwidth, hexpected] at hfaults
    rw [hwidth', hexpected'] at hfaults'
    exact ⟨htokens'.trans htokens.symm, hfaults'.trans hfaults.symm⟩

/-- An open string that looked ahead over an escaped line end, beyond the line that misfits. -/
theorem scan_truncates_behind_open_string :
    ⟨.inconsistentDedent 2 [0, 4], ⟨3, 2, 14⟩⟩ ∈ faultsOf "a\n    b \"x\\\n  c".toList ∧
      ∃ front, takeBytes? 14 "a\n    b \"x\\\n  c".toList = some front ∧
        tokensOf "a\n    b \"x\\\n  c".toList = tokensOf front ∧
        faultsOf "a\n    b \"x\\\n  c".toList =
          faultsOf front ++ [⟨.inconsistentDedent 2 [0, 4], ⟨3, 2, 14⟩⟩] := by
  have hfaults : faultsOf "a\n    b \"x\\\n  c".toList =
      [⟨.unterminatedString '"', ⟨2, 6, 8⟩⟩, ⟨.unrecognisedCharacter '\\', ⟨2, 8, 10⟩⟩,
        ⟨.inconsistentDedent 2 [0, 4], ⟨3, 2, 14⟩⟩] := by
    rw [faultsOf_eq_runFor]
    decide +kernel
  have hmem : ⟨.inconsistentDedent 2 [0, 4], ⟨3, 2, 14⟩⟩ ∈ faultsOf "a\n    b \"x\\\n  c".toList := by
    rw [hfaults]
    decide
  obtain ⟨front, hfront, htokens, hcut, -⟩ := scan_truncates_at_misfit hmem
  exact ⟨hmem, front, hfront, htokens, hcut⟩

end Offside
