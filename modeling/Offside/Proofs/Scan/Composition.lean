import Offside.Proofs.Scan.Order
import Offside.Proofs.Scan.Positions
import Offside.Proofs.Scan.Rewriting
import Offside.Proofs.Scan.Segmentation
import Offside.Proofs.Scan.Truncation

/-!
# Scans of texts put together

A text whose last line is ended, with no block open behind it, can have another text behind it. The scan of
both is the scan of the one and behind it the scan of the other, further on by the lines and bytes of the
first.

Two things carry this. Each lexeme of the first text is read in front of the other text as well, so the scan
comes to the cut between the two in the same steps. There it is in the state that every scan starts in, at
another position.
-/

namespace Offside

open Text

/-- A token that many lines and bytes further on. -/
def Token.shift (token : Token) (lines bytes : Nat) : Token :=
  { token with start := token.start.shift lines bytes, stop := token.stop.shift lines bytes }

/-- A fault that many lines and bytes further on. -/
def LocatedFault.shift (error : LocatedFault) (lines bytes : Nat) : LocatedFault :=
  { error with position := error.position.shift lines bytes }

/-- A text that stays as it is, further on. -/
def Rewriting.shift (lines bytes : Nat) : Rewriting where
  text := id
  covers _ := True
  keeps _ _ := True
  places p q := q = p.shift lines bytes
  append _ _ := rfl
  covers_append _ := ⟨trivial, trivial⟩
  blanks _ := rfl
  advance _ hplaces := by rw [hplaces, Position.advanceOver_shift]; rfl
  proper _ hlexeme htrivia := ⟨_, hlexeme, htrivia⟩
  reads _ hlexeme _ := hlexeme

/-- The token that stands for a token is the token further on. -/
theorem Rewriting.OfToken.eq_shift {lines bytes : Nat} {a b : Token}
    (h : (Rewriting.shift lines bytes).OfToken a b) :
    a.shift lines bytes = b := by
  obtain ⟨kind, text, start, stop⟩ := a
  obtain ⟨kind', text', start', stop'⟩ := b
  obtain rfl : kind' = kind := h.kind
  obtain rfl : text' = text := h.text
  obtain rfl : start' = start.shift lines bytes := h.start
  obtain rfl : stop' = stop.shift lines bytes := h.stop
  rfl

/-- The fault that stands for a fault is the fault further on. -/
theorem Rewriting.OfFault.eq_shift {lines bytes : Nat} {a b : LocatedFault}
    (h : (Rewriting.shift lines bytes).OfFault a b) : a.shift lines bytes = b := by
  obtain ⟨fault, position⟩ := a
  obtain ⟨fault', position'⟩ := b
  obtain rfl : fault' = fault := h.fault
  obtain rfl : position' = position.shift lines bytes := h.position
  rfl

/-- A line end ends with a character that ends lines. -/
theorem exists_getLast?_of_lineEnd {window text : List Char} (h : classify window = some ⟨.lineEnd, text⟩) :
    ∃ c, text.getLast? = some c ∧ isLineEnd c = true := by
  rcases classify_cases h with ⟨rule, happly, -⟩ | ⟨c, cs, -, -, heq⟩
  · cases Rule.takes_of_apply happly with
    | pair hwindow => exact ⟨'\n', rfl, rfl⟩
    | @single c cs hwindow hend hwhole => exact ⟨c, rfl, hend⟩
  · cases heq

/-- A text without faults in it, the last lexeme of which is a line end. -/
structure EndsInLineEnd (source : List Char) : Prop where
  clean : ∀ lexeme ∈ segment source, ∀ fault, lexeme.reading ≠ .fault fault
  last : ∃ text, (segment source).getLast? = some ⟨.lineEnd, text⟩

/-- The last character of such a text ends lines. -/
theorem EndsInLineEnd.exists_getLast? {source : List Char} (h : EndsInLineEnd source) :
    ∃ c, source.getLast? = some c ∧ isLineEnd c = true := by
  obtain ⟨text, htext⟩ := h.last
  obtain ⟨window, hwindow⟩ := exists_classify_of_mem_segment (List.mem_of_getLast? htext)
  obtain ⟨c, hc, hend⟩ := exists_getLast?_of_lineEnd hwindow
  obtain ⟨earlier, hearlier⟩ := List.getLast?_eq_some_iff.1 htext
  refine ⟨c, ?_, hend⟩
  rw [← flatten_segment source, hearlier, List.map_append, List.flatten_append]
  simp [hc]

/-- Each lexeme of such a text is read in front of another text as well, if no pair is cut in between. -/
theorem EndsInLineEnd.classify_append {source rest after : List Char} {read : List Lexeme} {lexeme : Lexeme}
    (h : EndsInLineEnd source) (hwhole : ¬ CutsPair source after)
    (hsegment : segment source = read ++ segment rest) (hlexeme : classify rest = some lexeme) :
    classify (rest ++ after) = some lexeme := by
  have hsource : joinTexts read ++ rest = source := by
    rw [← flatten_segment source, hsegment, List.map_append, List.flatten_append, flatten_segment]
    rfl
  have hne := (isFront_of_classify hlexeme).window_ne_nil
  have hmem : lexeme ∈ segment source := by
    rw [hsegment, segment_of_classify hlexeme]
    exact List.mem_append_right _ List.mem_cons_self
  obtain ⟨c, hlast, hend⟩ := h.exists_getLast?
  rw [← hsource, List.getLast?_append_of_ne_nil _ hne] at hlast
  rw [← hsource, cutsPair_append_left hne] at hwhole
  refine classify_append_of_ends hlast hend hwhole hlexeme (h.clean lexeme hmem) fun hcomment hall => ?_
  -- a comment over all that is left would be the last lexeme
  obtain ⟨text, htext⟩ := h.last
  rw [hsegment, segment_of_classify hlexeme, hall, List.drop_length, segment_nil,
    List.getLast?_concat] at htext
  rw [Option.some.inj htext] at hcomment
  cases hcomment

namespace ScanState

variable {state next : ScanState} {events : List Event} {after : List Char}

/-- A step is taken in front of another text as well, if the lexeme there is read. -/
theorem step_append (hstep : state.step = some (events, next))
    (hlexeme : ∀ lexeme, classify state.rest = some lexeme → classify (state.rest ++ after) = some lexeme) :
    (state.withRest (state.rest ++ after)).step = some (events, next.withRest (next.rest ++ after)) := by
  obtain ⟨lexeme, hread⟩ := exists_classify_of_step hstep
  have hread' : classify (state.withRest (state.rest ++ after)).rest = some lexeme := hlexeme lexeme hread
  obtain ⟨left, hleft⟩ := (isFront_of_classify hread).2
  have hrest : state.rest ++ after = lexeme.text ++ (left ++ after) := by rw [← hleft, List.append_assoc]
  have hdrop : state.rest.drop lexeme.text.length = left := by simp [← hleft]
  have hmode' : (state.withRest (state.rest ++ after)).mode = state.mode := rfl
  cases hmode : state.mode with
  | margin measured =>
    have hsame := hmode'.trans hmode
    cases htrivia : lexeme.reading.isTrivia with
    | true =>
      rw [step_of_trivia hmode hread htrivia] at hstep
      cases hstep
      rw [step_of_trivia hsame hread' htrivia, hrest, past_withRest]
      simp only [past, hdrop]
    | false =>
      rw [step_of_proper hmode hread htrivia] at hstep
      have hnext := Option.some.inj hstep
      have hstay := rest_enterLine state (measured.getD 0)
      rw [hnext] at hstay
      rw [step_of_proper hsame hread' htrivia, enterLine_withRest, hnext, hstay]
  | line depth =>
    have hsame := hmode'.trans hmode
    rw [step_of_line hmode hread] at hstep
    have hnext := Option.some.inj hstep
    have hbehind := rest_readLine state depth lexeme
    rw [hnext, hdrop] at hbehind
    rw [step_of_line hsame hread', hrest, readLine_withRest, hnext, hbehind]
  | halted =>
    simp only [step, hmode] at hstep
    cases hstep

/-- The steps over a text that ends in a line end are taken in front of another text as well. -/
theorem Steps.append {source : List Char} (h : Steps (initial source) events state)
    (hsource : EndsInLineEnd source) (hwhole : ¬ CutsPair source after) :
    Steps (initial (source ++ after)) events (state.withRest (state.rest ++ after)) := by
  induction h with
  | refl => exact .refl
  | tail hsteps hstep ih =>
    obtain ⟨read, hread⟩ := ReadsLexemes.of_steps hsteps
    exact .tail ih (step_append hstep fun lexeme => hsource.classify_append hwhole hread.segment_eq)

/-- Where the last token behind some steps ends a line, and nothing is read behind it, it was left by the last
step. -/
theorem Steps.exists_endsLine {source : List Char} {newline : Token} (h : Steps (initial source) events state)
    (hrest : state.rest = []) (hlast : (Event.tokens events).getLast? = some newline)
    (hkind : newline.kind = .newline) (hstop : newline.stop.index = state.position.index) :
    ∃ earlier middle text, Steps (initial source) earlier middle ∧
      classify middle.rest = some ⟨.lineEnd, text⟩ ∧ state = middle.past text (.margin none) ∧
      newline.stop = state.position := by
  cases h with
  | refl => cases hlast
  | @tail earlier new middle _ hsteps hstep =>
    cases moves_of_step hstep with
    | endsLine hmode hlexeme =>
      refine ⟨earlier, middle, _, hsteps, hlexeme, rfl, ?_⟩
      obtain rfl : .spanning .newline _ middle.position = newline := by simpa using hlast
      rfl
    | opens hmode hlexeme | settles hmode hlexeme | misfits hmode hlexeme =>
      exact absurd hrest (isFront_of_classify hlexeme).window_ne_nil
    | yields hmode hlexeme =>
      obtain rfl : .spanning _ _ middle.position = newline := by simpa using hlast
      cases hkind
      cases isLayout_of_classify hlexeme
    | skipsInMargin hmode hlexeme | skipsInLine hmode hlexeme | reports hmode hlexeme =>
      -- a token that was left before stops in front of the lexeme that is read here
      have hearlier : newline ∈ Event.tokens earlier := List.mem_of_getLast? (by simpa using hlast)
      have hbefore := (hsteps.between.tokens newline hearlier).2.1
      have hbehind := index_lt_past hlexeme .halted
      rw [hstop] at hbefore
      exact absurd hbehind (Nat.not_lt.2 hbefore)

/-- Behind a text that is read to its end, the lexemes read are all of its lexemes. -/
theorem ReadsLexemes.index_eq_of_rest {source : List Char} {read : List Lexeme}
    (h : ReadsLexemes source events state read) (hrest : state.rest = []) :
    segment source = read ∧ state.position.index = byteLength source := by
  have hsegment := h.segment_eq
  rw [hrest, segment_nil, List.append_nil] at hsegment
  refine ⟨hsegment, ?_⟩
  rw [h.index_eq, ← hsegment, joinTexts, flatten_segment]

/-- At the end of a text that ends in a line end, the position is at the start of a line. -/
theorem Tracks.eq_shift_of_rest {source : List Char} (h : Tracks source events state)
    (hrest : state.rest = []) (hsource : EndsInLineEnd source) :
    state.position = Position.start.shift (state.position.line - 1) (byteLength source) := by
  obtain ⟨before, hbefore, hmark⟩ := h.cut
  rw [hrest, List.append_nil] at hbefore
  obtain rfl := hbefore
  have hline : 1 + (state.position.line - 1) = state.position.line := by
    rw [hmark.line_eq]
    omega
  have hcolumn : state.position.column = 0 := by
    obtain ⟨c, hlast, hend⟩ := hsource.exists_getLast?
    obtain ⟨front, rfl⟩ := List.getLast?_eq_some_iff.1 hlast
    rw [hmark.column_eq, openLine_concat, if_pos hend]
    rfl
  rw [Position.shift, Position.start, hline, Nat.zero_add, ← hcolumn, ← hmark.index_eq]

/-- Where the second last token ends a line, the end of the text closes no block. -/
theorem eq_of_tokens_finish {tokens : List Token} {newline last : Token} (hkind : newline.kind = .newline)
    (h : Event.tokens events ++ (state.blocks.map (fun _ => .synthetic .dedent state.position) ++
      [.synthetic .endOfInput state.position]) = tokens ++ [newline, last]) :
    state.blocks = [] ∧ Event.tokens events = tokens ++ [newline] := by
  have hends : (Event.tokens events ++ state.blocks.map fun _ => .synthetic .dedent state.position) ++
      [.synthetic .endOfInput state.position] = tokens ++ [newline] ++ [last] := by
    rw [List.append_assoc, List.append_assoc]
    exact h
  have hfront := (List.append_inj' hends rfl).1
  rcases List.eq_nil_or_concat state.blocks with hnil | ⟨blocks, level, hblocks⟩
  · rw [hnil, List.map_nil, List.append_nil] at hfront
    exact ⟨hnil, hfront⟩
  · rw [hblocks, List.map_concat, List.concat_eq_append, ← List.append_assoc] at hfront
    obtain rfl : .synthetic .dedent state.position = newline := by
      simpa using (List.append_inj' hfront rfl).2
    cases hkind

end ScanState

open ScanState

/-- Where the last line of a text is ended and no block is open behind it, the scan comes to the end of the
text as if it started there. -/
theorem exists_steps_of_newline {source : List Char} {tokens : List Token} {newline last : Token}
    (h : analyze source = .ok (tokens ++ [newline, last])) (hkind : newline.kind = .newline)
    (hstop : newline.stop.index = byteLength source) :
    EndsInLineEnd source ∧ ∃ events, Event.tokens events = tokens ++ [newline] ∧ Event.errors events = [] ∧
      Steps (.initial source) events
        ⟨[], Position.start.shift (newline.stop.line - 1) (byteLength source), [], .margin none⟩ := by
  obtain ⟨hfaults, htokens⟩ := analyze_eq_ok_iff.1 h
  have hsteps := steps_run (.initial source)
  have hrest : (ScanState.initial source).run.2.rest = [] := (runs_to_end (by simp [hfaults])).1
  rw [faultsOf_eq_run] at hfaults
  rw [tokensOf_eq_run, tokens_finish] at htokens
  generalize (ScanState.initial source).run.1 = events at *
  generalize (ScanState.initial source).run.2 = state at *
  obtain ⟨hblocks, hnewline⟩ := eq_of_tokens_finish hkind htokens
  obtain ⟨read, hread⟩ := ReadsLexemes.of_steps hsteps
  obtain ⟨rfl, hindex⟩ := hread.index_eq_of_rest hrest
  obtain ⟨earlier, middle, text, hearlier, hlexeme, hstate, hposition⟩ :=
    hsteps.exists_endsLine hrest (by rw [hnewline, List.getLast?_concat]) hkind (hstop.trans hindex.symm)
  have hlines : EndsInLineEnd source := by
    refine ⟨fun lexeme hmem fault hfault => ?_, text, ?_⟩
    · obtain ⟨placed, hplaced, hreading, -⟩ := @exists_placed_of_mem 0 _ _ hmem
      have hnone := hread.errors_eq
      rw [hfaults] at hnone
      have hmem' := List.filterMap_eq_nil_iff.1 hnone.symm placed hplaced
      simp [PlacedLexeme.fault?, hreading, hfault] at hmem'
    · obtain ⟨readEarlier, hreadEarlier⟩ := ReadsLexemes.of_steps hearlier
      have hleft : middle.rest.drop text.length = [] := by rw [← hrest, hstate]; rfl
      rw [hreadEarlier.segment_eq, segment_of_classify hlexeme, hleft, segment_nil, List.getLast?_concat]
  refine ⟨hlines, events, hnewline, hfaults, ?_⟩
  have hshift : state.position = Position.start.shift (newline.stop.line - 1) (byteLength source) := by
    rw [hposition]
    exact (Tracks.of_steps hsteps).eq_shift_of_rest hrest hlines
  obtain ⟨unread, position, blocks, mode⟩ := state
  obtain rfl : unread = [] := hrest
  obtain rfl : blocks = [] := hblocks
  obtain rfl : mode = .margin none := congrArg ScanState.mode hstate
  rwa [← hshift]

/-- The scan of two texts put together, the first read without a fault, with its last line ended and no block
open behind it: the tokens of the first, but for the end of input, and then the tokens and the faults of the
second, further on by the lines and bytes of the first. -/
theorem scan_append {a b : List Char} {tokens : List Token} {newline last : Token}
    (h : analyze a = .ok (tokens ++ [newline, last])) (hkind : newline.kind = .newline)
    (hstop : newline.stop.index = byteLength a) (hwhole : ¬ CutsPair a b) :
    tokensOf (a ++ b) =
        tokens ++ [newline] ++ (tokensOf b).map (·.shift (newline.stop.line - 1) (byteLength a)) ∧
      faultsOf (a ++ b) = (faultsOf b).map (·.shift (newline.stop.line - 1) (byteLength a)) := by
  obtain ⟨hlines, events, htokens, herrors, hsteps⟩ := exists_steps_of_newline h hkind hstop
  have hboth := hsteps.append hlines hwhole
  let seam : ScanState := ⟨b, Position.start.shift (newline.stop.line - 1) (byteLength a), [], .margin none⟩
  have hseam : (Rewriting.shift (newline.stop.line - 1) (byteLength a)).OfState (.initial b) seam :=
    ⟨trivial, rfl, rfl, rfl, rfl⟩
  obtain ⟨hevents, hlast⟩ := hseam.run fun _ _ => trivial
  have hrun : (ScanState.initial (a ++ b)).run = (events ++ seam.run.1, seam.run.2) := hboth.run_eq
  rw [tokensOf_eq_run, tokensOf_eq_run, faultsOf_eq_run, faultsOf_eq_run, hrun]
  dsimp only
  rw [Event.tokens_append, Event.errors_append, htokens, herrors, List.append_assoc, List.nil_append]
  have htokens' := List.rel_append hevents.tokens hlast.finish.tokens
  refine ⟨congrArg _ (Eq.symm ?_), Eq.symm ?_⟩
  · exact map_eq_of_forall₂ htokens' fun _ _ => Rewriting.OfToken.eq_shift
  · exact map_eq_of_forall₂ hevents.errors fun _ _ => Rewriting.OfFault.eq_shift

/-- Two lines joined inside brackets, and behind them an indented line with a fault, which is found on the
third line of both. -/
theorem scan_append_of_joined_lines :
    ∃ tokens newline last, analyze "(\n)\n".toList = .ok (tokens ++ [newline, last]) ∧
      tokensOf "(\n)\n  x $".toList =
        tokens ++ [newline] ++ (tokensOf "  x $".toList).map (·.shift 2 4) ∧
      faultsOf "(\n)\n  x $".toList = [⟨.unrecognisedCharacter '$', ⟨3, 4, 8⟩⟩] := by
  have hanalyze : analyze "(\n)\n".toList =
      .ok ([⟨.delimiter .leftParen, ['('], ⟨1, 0, 0⟩, ⟨1, 1, 1⟩⟩,
          ⟨.delimiter .rightParen, [')'], ⟨2, 0, 2⟩, ⟨2, 1, 3⟩⟩] ++
        [⟨.newline, ['\n'], ⟨2, 1, 3⟩, ⟨3, 0, 4⟩⟩, ⟨.endOfInput, [], ⟨3, 0, 4⟩, ⟨3, 0, 4⟩⟩]) := by
    rw [analyze_eq_ok_iff, faultsOf_eq_runFor, tokensOf_eq_runFor]
    decide +kernel
  have hfaults : faultsOf "  x $".toList = [⟨.unrecognisedCharacter '$', ⟨1, 4, 4⟩⟩] := by
    rw [faultsOf_eq_runFor]
    decide +kernel
  obtain ⟨htokens, hboth⟩ := @scan_append "(\n)\n".toList "  x $".toList _ _ _ hanalyze rfl rfl
    fun hcut => by cases hcut.1
  rw [hfaults] at hboth
  exact ⟨_, _, _, hanalyze, htokens, hboth⟩

end Offside
