import Offside.Proofs.Layout.Reading
import Offside.Proofs.Scan.Order
import Offside.Proofs.Scan.Segmentation

/-!
# Which line ends are tokens

A line end yields a token when no bracket is open in front of it and its line holds something: a token or a
fault stands in front of it, behind the last line end that yielded a token. Every other line end yields
nothing.

A scan does not look back to decide this. It is in a margin as long as nothing of the line was read, and
behind the margin it counts brackets. So the proof is an invariant of its states: the count is that of the
tokens left behind, and the line holds something behind a margin and nothing in one.
-/

namespace Offside

open Text

/-- The brackets open behind some tokens, where a bracket that closes nothing does not count. -/
def openBrackets (tokens : List Token) : Nat :=
  tokens.foldl (fun depth token => Layout.bracketDepth depth token.kind) 0

@[simp] theorem openBrackets_nil : openBrackets [] = 0 := rfl

/-- A token is counted behind those in front of it. -/
theorem openBrackets_concat (tokens : List Token) (token : Token) :
    openBrackets (tokens ++ [token]) = token.kind.nest (openBrackets tokens) := by
  rw [openBrackets, List.foldl_append, ← Layout.bracketDepth_eq]
  rfl

/-- Layout opens and closes no bracket. -/
theorem openBrackets_append {more : List Token} (h : ∀ token ∈ more, token.kind.isLayout = true)
    (tokens : List Token) : openBrackets (tokens ++ more) = openBrackets tokens := by
  induction more generalizing tokens with
  | nil => rw [List.append_nil]
  | cons token more ih =>
    obtain ⟨htoken, hmore⟩ := List.forall_mem_cons.1 h
    rw [← List.singleton_append, ← List.append_assoc, ih hmore, openBrackets_concat]
    cases hkind : token.kind <;> first | rfl | (rw [hkind] at htoken; cases htoken)

/-- The tokens that stop at a byte index or in front of it. -/
def tokensUpTo (index : Nat) (tokens : List Token) : List Token :=
  tokens.filter fun token => token.stop.index ≤ index

/-- The tokens up to an index are those in front of it. -/
theorem tokensUpTo_append {index : Nat} {front behind : List Token}
    (hfront : ∀ token ∈ front, token.stop.index ≤ index)
    (hbehind : ∀ token ∈ behind, index < token.stop.index) :
    tokensUpTo index (front ++ behind) = front := by
  rw [tokensUpTo, List.filter_append, List.filter_eq_self.2 (by simpa using hfront),
    List.filter_eq_nil_iff.2 (by simpa using hbehind), List.append_nil]

/-- Whether a line holds something in front of a byte index, behind some tokens: a token or a fault stands
there, and no line end that is one of the tokens stands behind it. -/
def HoldsSomething (source : List Char) (tokens : List Token) (index : Nat) : Prop :=
  ∃ placed ∈ placedLexemes source, placed.reading.isTrivia = false ∧ placed.stop ≤ index ∧
    ∀ newline ∈ tokens, newline.kind = .newline → newline.stop.index ≤ placed.start

/-- Whether a token of a line end has the text of a lexeme and covers its bytes. -/
def PlacedLexeme.YieldsNewline (placed : PlacedLexeme) (tokens : List Token) : Prop :=
  ∃ token ∈ tokens, token.span = ⟨.newline, placed.text, placed.start, placed.stop⟩

namespace ScanState

variable {source : List Char} {state next : ScanState} {events new : List Event} {lexeme : Lexeme}
  {placed : PlacedLexeme}

/-- The lexeme that a scan is in front of is one of the lexemes of the text. -/
theorem Steps.mem_placedLexemes (h : Steps (initial source) events state)
    (hlexeme : classify state.rest = some lexeme) :
    ⟨lexeme.reading, lexeme.text, state.position.index⟩ ∈ placedLexemes source := by
  obtain ⟨read, hread⟩ := ReadsLexemes.of_steps h
  rw [placedLexemes, hread.segment_eq, segment_of_classify hlexeme, placeFrom_append, Nat.zero_add,
    ← hread.index_eq]
  exact List.mem_append_right _ List.mem_cons_self

/-- Every other lexeme of the text stands in front of it or behind it. -/
theorem Steps.placed_cases (h : Steps (initial source) events state)
    (hlexeme : classify state.rest = some lexeme) (hplaced : placed ∈ placedLexemes source) (mode : Mode) :
    placed = ⟨lexeme.reading, lexeme.text, state.position.index⟩ ∨ placed.stop ≤ state.position.index ∨
      (state.past lexeme.text mode).position.index ≤ placed.start := by
  by_cases hsame : placed = ⟨lexeme.reading, lexeme.text, state.position.index⟩
  · exact .inl hsame
  · have hapart := apart_of_mem_placeFrom hplaced (h.mem_placedLexemes hlexeme) hsame
    rw [past, Position.index_advanceOver]
    exact .inr hapart

/-- What was passed behind a lexeme was passed in front of it, or is the lexeme. -/
theorem Steps.passed (h : Steps (initial source) events state) (hlexeme : classify state.rest = some lexeme)
    (hplaced : placed ∈ placedLexemes source) {mode : Mode}
    (hstop : placed.stop ≤ (state.past lexeme.text mode).position.index) :
    placed = ⟨lexeme.reading, lexeme.text, state.position.index⟩ ∨ placed.stop ≤ state.position.index := by
  have hpositive := start_lt_stop_of_mem hplaced
  rcases h.placed_cases hlexeme hplaced mode with hsame | hbefore | hbehind
  · exact .inl hsame
  · exact .inr hbefore
  · omega

/-- Behind a token or a fault, a line holds something. -/
theorem holdsSomething_past (h : Steps (initial source) events state)
    (hlexeme : classify state.rest = some lexeme) (hproper : lexeme.reading.isTrivia = false)
    (hnew : ∀ token ∈ Event.tokens new, token.kind ≠ .newline) (mode : Mode) :
    HoldsSomething source (Event.tokens (events ++ new)) (state.past lexeme.text mode).position.index := by
  refine ⟨_, h.mem_placedLexemes hlexeme, hproper, ?_, fun newline hmem hkind => ?_⟩
  · rw [past, Position.index_advanceOver]
    exact le_rfl
  · rw [Event.tokens_append] at hmem
    rcases List.mem_append.1 hmem with hmem | hmem
    · exact (h.between.tokens newline hmem).2.1
    · exact absurd hkind (hnew newline hmem)

/-- How a scan knows its line. In a margin no bracket is open and the line holds nothing. Behind the margin
the open brackets are counted, and the line holds something or a token or a fault comes next. -/
structure KnowsLine (source : List Char) (events : List Event) (state : ScanState) : Prop where
  margin : ∀ measured, state.mode = .margin measured → openBrackets (Event.tokens events) = 0 ∧
    ¬ HoldsSomething source (Event.tokens events) state.position.index
  line : ∀ depth, state.mode = .line depth → openBrackets (Event.tokens events) = depth ∧
    (HoldsSomething source (Event.tokens events) state.position.index ∨
      ∃ lexeme, classify state.rest = some lexeme ∧ lexeme.reading.isTrivia = false)

namespace KnowsLine

/-- At the start the line holds nothing. -/
theorem initial (source : List Char) : KnowsLine source [] (initial source) where
  margin := fun _ _ => by
    refine ⟨rfl, ?_⟩
    rintro ⟨placed, hplaced, -, hstop, -⟩
    exact Nat.not_lt_zero _ (Nat.lt_of_lt_of_le (start_lt_stop_of_mem hplaced) hstop)
  line := fun _ hline => by cases hline

/-- Where a margin is left, no bracket is open, and a token or a fault comes next. -/
theorem enter {measured : Option Nat} {blocks : List Nat} (h : KnowsLine source events state)
    (hmode : state.mode = .margin measured) (hlexeme : classify state.rest = some lexeme)
    (hproper : lexeme.reading.isTrivia = false)
    (hnew : ∀ token ∈ Event.tokens new, token.kind.isLayout = true) :
    KnowsLine source (events ++ new) { state with blocks, mode := .line 0 } where
  margin := fun _ hmargin => by cases hmargin
  line := fun depth hline => by
    cases hline
    refine ⟨?_, .inr ⟨lexeme, hlexeme, hproper⟩⟩
    rw [Event.tokens_append, openBrackets_append hnew]
    exact (h.margin measured hmode).1

/-- Every move keeps track of the line. -/
theorem move (h : KnowsLine source events state) (hsteps : Steps (.initial source) events state)
    (hmove : state.Moves new next) : KnowsLine source (events ++ new) next := by
  cases hmove with
  | @skipsInMargin measured lexeme hmode hlexeme htrivia =>
    obtain ⟨measured', hbehind⟩ := exists_marginBehind measured lexeme
    obtain ⟨hcount, hnothing⟩ := h.margin measured hmode
    rw [List.append_nil, hbehind]
    refine ⟨fun _ _ => ⟨hcount, ?_⟩, fun _ hline => by cases hline⟩
    rintro ⟨placed, hplaced, hproper, hstop, hnewlines⟩
    rcases hsteps.passed hlexeme hplaced hstop with rfl | hstop
    · rw [htrivia] at hproper
      cases hproper
    · exact hnothing ⟨placed, hplaced, hproper, hstop, hnewlines⟩
  | opens hmode hlexeme htrivia | settles hmode hlexeme htrivia =>
    exact h.enter hmode hlexeme htrivia (by simp [Token.synthetic, Kind.isLayout])
  | misfits => exact ⟨fun _ hmargin => (by cases hmargin), fun _ hline => (by cases hline)⟩
  | skipsInLine hmode hlexeme htrivia hjoined =>
    obtain ⟨hcount, hholds⟩ := h.line _ hmode
    rw [List.append_nil]
    refine ⟨fun _ hmargin => (by cases hmargin), fun _ hline => ?_⟩
    cases hline
    refine ⟨hcount, .inl ?_⟩
    rcases hholds with ⟨placed, hplaced, hproper, hstop, hnewlines⟩ | ⟨other, hother, hproper⟩
    · exact ⟨placed, hplaced, hproper, hstop.trans (le_of_lt (index_lt_past hlexeme _)), hnewlines⟩
    · rw [hlexeme] at hother
      cases hother
      rw [htrivia] at hproper
      cases hproper
  | @endsLine text hmode hlexeme =>
    refine ⟨fun _ _ => ⟨?_, ?_⟩, fun _ hline => by cases hline⟩
    · rw [Event.tokens_append, openBrackets_append (by simp [Token.spanning, Kind.isLayout])]
      exact (h.line 0 hmode).1
    · -- whatever was passed stands in front of the end of this line end
      rintro ⟨placed, hplaced, -, hstop, hnewlines⟩
      have hle := hnewlines (.spanning .newline text state.position) (by simp) rfl
      exact Nat.not_lt.2 (hstop.trans hle) (start_lt_stop_of_mem hplaced)
  | @yields depth kind text hmode hlexeme =>
    refine ⟨fun _ hmargin => (by cases hmargin), fun _ hline => ?_⟩
    cases hline
    refine ⟨?_, .inl (holdsSomething_past hsteps hlexeme rfl ?_ _)⟩
    · rw [← (h.line depth hmode).1, Event.tokens_append]
      exact openBrackets_concat _ _
    · intro token hmem hkind
      obtain rfl : token = .spanning kind text state.position := by simpa using hmem
      cases hkind
      cases isLayout_of_classify hlexeme
  | @reports depth fault text hmode hlexeme =>
    refine ⟨fun _ hmargin => (by cases hmargin), fun _ hline => ?_⟩
    cases hline
    refine ⟨?_, .inl (holdsSomething_past hsteps hlexeme rfl (by simp) _)⟩
    simpa using (h.line depth hmode).1

/-- Every state of a scan knows what its line holds. -/
theorem of_steps (h : Steps (.initial source) events state) : KnowsLine source events state := by
  induction h with
  | refl => exact initial source
  | tail hsteps hstep ih => exact ih.move hsteps (moves_of_step hstep)

end KnowsLine

/-! ### The step that reads a line end -/

/-- A lexeme that a scan has gone beyond was read in one of its steps. -/
theorem Steps.exists_read (h : Steps (initial source) events state) (hplaced : placed ∈ placedLexemes source)
    (hstart : placed.start < state.position.index) :
    ∃ earlier middle new next later, Steps (initial source) earlier middle ∧ middle.Moves new next ∧
      Steps next later state ∧ events = earlier ++ (new ++ later) ∧
      classify middle.rest = some ⟨placed.reading, placed.text⟩ ∧ middle.position.index = placed.start ∧
      next.position.index = placed.stop := by
  induction h with
  | refl => exact absurd hstart (Nat.not_lt_zero _)
  | @tail events new middle next hsteps hstep ih =>
    by_cases hbefore : placed.start < middle.position.index
    · obtain ⟨earlier, front, read, behind, later, hearlier, hmove, hlater, rfl, hread⟩ := ih hbefore
      exact ⟨earlier, front, read, behind, later ++ new, hearlier, hmove, hlater.tail hstep, by simp, hread⟩
    · have hmove := moves_of_step hstep
      rcases hmove.stays_or_reads with ⟨-, hstay⟩ | ⟨lexeme, mode, hlexeme, rfl⟩
      · rw [hstay] at hstart
        exact absurd hstart hbefore
      · have hpositive := start_lt_stop_of_mem hplaced
        rcases hsteps.placed_cases hlexeme hplaced mode with rfl | hcases
        · refine ⟨events, middle, new, _, [], hsteps, hmove, .refl, by simp, hlexeme, rfl, ?_⟩
          rw [past, Position.index_advanceOver]
          rfl
        · omega

/-- A line end yields a token at the end of a line without open brackets, and nothing in a margin or inside
brackets. -/
theorem Moves.lineEnd_cases {text : List Char} (h : state.Moves new next)
    (hlexeme : classify state.rest = some ⟨.lineEnd, text⟩) :
    state.mode = .line 0 ∧ Event.tokens new = [.spanning .newline text state.position] ∨
      ((∃ measured, state.mode = .margin measured) ∨ ∃ depth, depth ≠ 0 ∧ state.mode = .line depth) ∧
        Event.tokens new = [] := by
  cases h with
  | skipsInMargin hmode => exact .inr ⟨.inl ⟨_, hmode⟩, rfl⟩
  | skipsInLine hmode hlexeme' htrivia hjoined =>
    rw [hlexeme] at hlexeme'
    cases hlexeme'
    exact .inr ⟨.inr ⟨_, hjoined rfl, hmode⟩, rfl⟩
  | endsLine hmode hlexeme' =>
    rw [hlexeme] at hlexeme'
    cases hlexeme'
    exact .inl ⟨hmode, rfl⟩
  | opens hmode hlexeme' hproper | settles hmode hlexeme' hproper | misfits hmode hlexeme' hproper =>
    rw [hlexeme] at hlexeme'
    cases hlexeme'
    cases hproper
  | yields hmode hlexeme' | reports hmode hlexeme' =>
    rw [hlexeme] at hlexeme'
    cases hlexeme'

/-- What is put in by layout is put in where a margin is left. -/
theorem Moves.layout_of_mem {token : Token} (h : state.Moves new next) (hmem : token ∈ Event.tokens new)
    (hkind : token.kind = .indent ∨ token.kind = .dedent) :
    (∃ measured, state.mode = .margin measured) ∧ ∀ other ∈ Event.tokens new, other.kind.isLayout = true := by
  cases h with
  | opens hmode | settles hmode | misfits hmode =>
    exact ⟨⟨_, hmode⟩, by simp [Token.synthetic, Kind.isLayout]⟩
  | skipsInMargin | skipsInLine | reports => simp at hmem
  | endsLine hmode hlexeme =>
    obtain rfl : token = .spanning .newline _ state.position := by simpa using hmem
    rcases hkind with hkind | hkind <;> cases hkind
  | @yields depth kind text hmode hlexeme =>
    obtain rfl : token = .spanning kind text state.position := by simpa using hmem
    have hword := isLayout_of_classify hlexeme
    rcases hkind with rfl | rfl <;> cases hword

/-- Blocks are opened and closed where no bracket is open. -/
theorem Steps.openBrackets_eq_zero {before after : List Token} {token : Token}
    (h : Steps (initial source) events state) (hsplit : Event.tokens events = before ++ token :: after)
    (hkind : token.kind = .indent ∨ token.kind = .dedent) : openBrackets before = 0 := by
  induction h generalizing after with
  | refl => simp at hsplit
  | @tail events new middle next hsteps hstep ih =>
    have hmove := moves_of_step hstep
    -- the token was left by an earlier step, or by this one behind some other layout
    have hlast : ∀ front, before = Event.tokens events ++ front → Event.tokens new = front ++ token :: after →
        openBrackets before = 0 := by
      intro front hbefore hnew
      obtain ⟨⟨measured, hmode⟩, hlayout⟩ := hmove.layout_of_mem (by rw [hnew]; simp) hkind
      have hfront : ∀ other ∈ front, other.kind.isLayout = true := fun other hother =>
        hlayout other (by rw [hnew]; exact List.mem_append_left _ hother)
      rw [hbefore, openBrackets_append hfront]
      exact ((KnowsLine.of_steps hsteps).margin measured hmode).1
    rw [Event.tokens_append, List.append_eq_append_iff] at hsplit
    rcases hsplit with ⟨front, hbefore, hnew⟩ | ⟨rest, hevents, hrest⟩
    · exact hlast front hbefore hnew
    · cases rest with
      | nil => exact hlast [] (by simpa using hevents.symm) hrest.symm
      | cons first rest =>
        obtain ⟨rfl, -⟩ := List.cons.inj hrest
        exact ih hevents

/-- The tokens that a scan leaves from a state on start where the state is or behind it. -/
theorem Steps.start_le_of_mem {token : Token} (h : Steps state events next)
    (hmem : token ∈ Event.tokens events ++ Event.tokens next.finish) :
    state.position.index ≤ token.start.index ∧ token.start.index ≤ token.stop.index := by
  have hle := h.between.le
  rcases List.mem_append.1 hmem with hmem | hmem
  · obtain ⟨hstart, -, hstop, -⟩ := h.between.tokens token hmem
    exact ⟨hstart, hstop⟩
  · obtain ⟨kind, -, rfl⟩ := exists_synthetic_of_mem_finish hmem
    exact ⟨hle, le_rfl⟩

/-- A line end that a scan reads yields a token where a line without open brackets ends, and yields nothing in
a margin or inside brackets. -/
theorem Moves.yieldsNewline_cases {later : List Event} (hmove : state.Moves new next)
    (hsteps : Steps (.initial source) events state)
    (hlexeme : classify state.rest = some ⟨.lineEnd, placed.text⟩)
    (hstart : state.position.index = placed.start) (hstop : next.position.index = placed.stop)
    (hrun : (ScanState.initial source).run.1 = events ++ (new ++ later))
    (hlater : Steps next later (ScanState.initial source).run.2) :
    state.mode = .line 0 ∧ placed.YieldsNewline (tokensOf source) ∨
      ((∃ measured, state.mode = .margin measured) ∨ ∃ depth, depth ≠ 0 ∧ state.mode = .line depth) ∧
        ¬ placed.YieldsNewline (tokensOf source) := by
  have htokens : tokensOf source = Event.tokens events ++ (Event.tokens new ++
      (Event.tokens later ++ Event.tokens (ScanState.initial source).run.2.finish)) := by
    rw [tokensOf_eq_run, hrun]
    simp only [Event.tokens_append, List.append_assoc]
  rcases hmove.lineEnd_cases hlexeme with ⟨hmode, hnew⟩ | ⟨hmode, hnew⟩
  · refine .inl ⟨hmode, .spanning .newline placed.text state.position, ?_, ?_⟩
    · rw [htokens, hnew]
      simp
    · simp [Token.span, Token.spanning, hstart, PlacedLexeme.stop]
  · refine .inr ⟨hmode, ?_⟩
    rintro ⟨token, hmem, hspan⟩
    have hstart' : token.start.index = placed.start := congrArg TokenSpan.start hspan
    have hstop' : token.stop.index = placed.stop := congrArg TokenSpan.stop hspan
    have hpositive : placed.start < placed.stop :=
      Nat.lt_add_of_pos_right (byteLength_pos (isFront_of_classify hlexeme).1)
    rw [htokens, hnew, List.nil_append] at hmem
    rcases List.mem_append.1 hmem with hmem | hmem
    · have hle := (hsteps.between.tokens token hmem).2.1
      omega
    · have hle := (hlater.start_le_of_mem hmem).1
      omega

end ScanState

open ScanState

/-- A line end that a scan has gone beyond was read in a state that has left the tokens up to it. It has
yielded a token there, or the state was in a margin or inside brackets. -/
theorem exists_state_of_lineEnd {source : List Char} {placed : PlacedLexeme}
    (hplaced : placed ∈ placedLexemes source) (hreading : placed.reading = .lineEnd)
    (hstart : placed.start < (Scan.ofSource source).position.index) :
    ∃ events state, Steps (.initial source) events state ∧ state.position.index = placed.start ∧
      classify state.rest = some ⟨.lineEnd, placed.text⟩ ∧
      tokensUpTo placed.start (tokensOf source) = Event.tokens events ∧
      (state.mode = .line 0 ∧ placed.YieldsNewline (tokensOf source) ∨
        ((∃ measured, state.mode = .margin measured) ∨ ∃ depth, depth ≠ 0 ∧ state.mode = .line depth) ∧
          ¬ placed.YieldsNewline (tokensOf source)) := by
  obtain ⟨earlier, middle, new, next, later, hearlier, hmove, hlater, hevents, hlexeme, hindex, hstop⟩ :=
    (steps_run (.initial source)).exists_read hplaced hstart
  rw [hreading] at hlexeme
  refine ⟨earlier, middle, hearlier, hindex, hlexeme, ?_,
    hmove.yieldsNewline_cases hearlier hlexeme hindex hstop hevents hlater⟩
  have hpositive := start_lt_stop_of_mem hplaced
  rw [tokensOf_eq_run, hevents, Event.tokens_append, Event.tokens_append, List.append_assoc, List.append_assoc]
  refine tokensUpTo_append (fun token hmem => ?_) fun token hmem => ?_
  · exact hindex ▸ (hearlier.between.tokens token hmem).2.1
  rcases List.mem_append.1 hmem with hmem | hmem
  · rcases hmove.lineEnd_cases hlexeme with ⟨-, hnew⟩ | ⟨-, hnew⟩
    · obtain rfl : token = .spanning .newline placed.text middle.position := by simpa [hnew] using hmem
      change placed.start < (middle.position.advanceOver placed.text).index
      rw [Position.index_advanceOver, hindex]
      exact hpositive
    · simp [hnew] at hmem
  · have hle := hlater.start_le_of_mem hmem
    omega

/-- A line end that a scan has gone beyond yields a token exactly when no bracket is open in front of it and
its line holds something. Blocks are opened where no bracket is open, and closed there or at the end of the
text. -/
theorem yieldsNewline_iff (source : List Char) :
    (∀ placed ∈ placedLexemes source, placed.reading = .lineEnd →
      placed.start < (Scan.ofSource source).position.index →
        (placed.YieldsNewline (tokensOf source) ↔
          openBrackets (tokensUpTo placed.start (tokensOf source)) = 0 ∧
            HoldsSomething source (tokensUpTo placed.start (tokensOf source)) placed.start)) ∧
      ∀ before token after,
        tokensOf source = before ++ token :: after ++ Event.tokens (ScanState.initial source).run.2.finish →
          token.kind = .indent ∨ token.kind = .dedent → openBrackets before = 0 := by
  constructor
  · intro placed hplaced hreading hstart
    obtain ⟨events, state, hsteps, hindex, hlexeme, hupto, hcases⟩ :=
      exists_state_of_lineEnd hplaced hreading hstart
    have hknows := KnowsLine.of_steps hsteps
    rw [hupto, ← hindex]
    rcases hcases with ⟨hmode, hyields⟩ | ⟨⟨measured, hmode⟩ | ⟨depth, hdepth, hmode⟩, hnone⟩
    · obtain ⟨hcount, hholds | ⟨other, hother, hproper⟩⟩ := hknows.line 0 hmode
      · exact iff_of_true hyields ⟨hcount, hholds⟩
      · -- the line end that comes next is no token and no fault
        rw [hlexeme] at hother
        cases hother
        cases hproper
    · exact iff_of_false hnone fun hboth => (hknows.margin measured hmode).2 hboth.2
    · exact iff_of_false hnone fun hboth => hdepth ((hknows.line depth hmode).1.symm.trans hboth.1)
  · intro before token after hsplit hkind
    rw [tokensOf_eq_run] at hsplit
    exact (steps_run (.initial source)).openBrackets_eq_zero (List.append_cancel_right hsplit) hkind

/-- Two lines joined inside brackets. The line end between them yields no token. The one behind them yields
one, so its line holds something. -/
theorem yieldsNewline_of_joined_lines :
    ¬ PlacedLexeme.YieldsNewline ⟨.lineEnd, ['\n'], 2⟩ (tokensOf "a(\n)\n".toList) ∧
      HoldsSomething "a(\n)\n".toList (tokensUpTo 4 (tokensOf "a(\n)\n".toList)) 4 := by
  have hsegment : segment "a(\n)\n".toList =
      [⟨.token .identifier, ['a']⟩, ⟨.token (.delimiter .leftParen), ['(']⟩, ⟨.lineEnd, ['\n']⟩,
        ⟨.token (.delimiter .rightParen), [')']⟩, ⟨.lineEnd, ['\n']⟩] := by
    rw [@segment_of_classify _ ⟨.token .identifier, ['a']⟩ (by decide +kernel),
      @segment_of_classify _ ⟨.token (.delimiter .leftParen), ['(']⟩ (by decide +kernel),
      @segment_of_classify _ ⟨.lineEnd, ['\n']⟩ (by decide +kernel),
      @segment_of_classify _ ⟨.token (.delimiter .rightParen), [')']⟩ (by decide +kernel),
      @segment_of_classify _ ⟨.lineEnd, ['\n']⟩ (by decide +kernel)]
    simp
  have htokens : tokensOf "a(\n)\n".toList =
      [⟨.identifier, ['a'], ⟨1, 0, 0⟩, ⟨1, 1, 1⟩⟩, ⟨.delimiter .leftParen, ['('], ⟨1, 1, 1⟩, ⟨1, 2, 2⟩⟩,
        ⟨.delimiter .rightParen, [')'], ⟨2, 0, 3⟩, ⟨2, 1, 4⟩⟩, ⟨.newline, ['\n'], ⟨2, 1, 4⟩, ⟨3, 0, 5⟩⟩,
        ⟨.endOfInput, [], ⟨3, 0, 5⟩, ⟨3, 0, 5⟩⟩] := by
    rw [tokensOf_eq_runFor]
    decide +kernel
  have hlast : (Scan.ofSource "a(\n)\n".toList).position.index = 5 := by
    rw [Scan.ofSource, run_initial_eq_runFor]
    decide +kernel
  have hiff := (yieldsNewline_iff "a(\n)\n".toList).1
  rw [placedLexemes, hsegment, hlast, htokens] at hiff
  rw [htokens]
  constructor
  · intro hjoined
    have hopen := ((hiff ⟨.lineEnd, ['\n'], 2⟩ (by decide) rfl (by decide)).1 hjoined).1
    revert hopen
    decide
  · exact ((hiff ⟨.lineEnd, ['\n'], 4⟩ (by decide) rfl (by decide)).1
      ⟨⟨.newline, ['\n'], ⟨2, 1, 4⟩, ⟨3, 0, 5⟩⟩, by decide, rfl⟩).2

end Offside
