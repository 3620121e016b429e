import Offside.Proofs.Lexeme.Slices
import Offside.Proofs.Scan.Order
import Offside.Proofs.Scan.Positions

/-!
# Turns of a scan

A scan takes turns: at the start of a line it reads the whole margin, up to the first token or fault, the next
line end, or the end of the text, and behind a margin it reads one lexeme. A turn is some steps, between two
states that are not inside a margin.

No turn is idle. It reads at least one byte, or it leaves a margin that was empty, and then the next turn reads
something. So the turns of a scan are no more than two for each character and one, and as each of them ends,
the scan does.
-/

namespace Offside

open Text

namespace ScanState

/-- Whether the next turn reads a margin. -/
def isAtLineStart (state : ScanState) : Bool :=
  match state.mode with
  | .margin _ => true
  | _ => false

/-- Whether a scan is inside a margin: something of it was read, and some text is left. -/
def isInMargin (state : ScanState) : Bool :=
  match state.mode with
  | .margin (some _) => !state.rest.isEmpty
  | _ => false

/-- One turn: the steps up to the next state that is not inside a margin. -/
inductive Turn : ScanState → List Event → ScanState → Prop where
  | last {state next : ScanState} {events : List Event} (hstep : state.step = some (events, next))
      (hmargin : next.isInMargin = false) : Turn state events next
  | more {state middle next : ScanState} {events later : List Event}
      (hstep : state.step = some (events, middle)) (hmargin : middle.isInMargin = true)
      (hturn : Turn middle later next) : Turn state (events ++ later) next

/-- A number of turns, one after another, with all that happens in them. -/
inductive Turns (state : ScanState) : Nat → List Event → ScanState → Prop where
  | refl : Turns state 0 [] state
  | tail {count : Nat} {events new : List Event} {middle next : ScanState}
      (hturns : Turns state count events middle) (hturn : Turn middle new next) :
      Turns state (count + 1) (events ++ new) next

variable {state middle next : ScanState} {events new later : List Event} {count : Nat} {source : List Char}

/-- A turn is some steps. -/
theorem Turn.steps (h : Turn state events next) : Steps state events next := by
  induction h with
  | last hstep => exact .single hstep
  | more hstep _ _ ih => exact (Steps.single hstep).trans ih

/-- Turns are steps. -/
theorem Turns.steps (h : Turns state count events next) : Steps state events next := by
  induction h with
  | refl => exact .refl
  | tail _ hturn ih => exact ih.trans hturn.steps

/-- Inside a margin there is a lexeme to read, or to leave the margin at. -/
theorem exists_step_of_isInMargin (h : state.isInMargin = true) :
    ∃ events next, state.step = some (events, next) := by
  have hne : state.step ≠ none := by
    rw [ne_eq, step_eq_none_iff]
    unfold isInMargin at h
    split at h
    · rename_i width hmode
      simpa [hmode] using h
    · cases h
  obtain ⟨⟨events, next⟩, hstep⟩ := Option.ne_none_iff_exists'.1 hne
  exact ⟨events, next, hstep⟩

/-- Every turn that starts comes to its end. -/
theorem exists_turn (h : state.step ≠ none) : ∃ events next, Turn state events next := by
  induction state using run.induct with
  | case1 state hstep => exact absurd hstep h
  | case2 state events next hstep ih =>
    by_cases hmargin : next.isInMargin = true
    · obtain ⟨later, middle, hnext⟩ := exists_step_of_isInMargin hmargin
      obtain ⟨later', last, hturn⟩ := ih (by rw [hnext]; exact Option.some_ne_none _)
      exact ⟨_, last, .more hstep hmargin hturn⟩
    · exact ⟨events, next, .last hstep (by simpa using hmargin)⟩

/-! ### Progress -/

/-- How a turn goes on: it comes to a later byte index, or it leaves an empty margin. -/
def Advances (state next : ScanState) : Prop :=
  state.position.index < next.position.index ∨
    next.position = state.position ∧ state.isAtLineStart = true ∧ next.isAtLineStart = false

/-- A move that reads nothing leaves a margin. -/
theorem Moves.advances (h : state.Moves new next) : state.Advances next := by
  cases h with
  | skipsInMargin hmode hlexeme | skipsInLine hmode hlexeme | endsLine hmode hlexeme | yields hmode hlexeme
  | reports hmode hlexeme => exact .inl (index_lt_past hlexeme _)
  | opens hmode | settles hmode | misfits hmode =>
    refine .inr ⟨rfl, ?_, rfl⟩
    rw [isAtLineStart, hmode]

/-- A scan inside a margin is at the start of a line. -/
theorem isAtLineStart_of_isInMargin (h : state.isInMargin = true) : state.isAtLineStart = true := by
  unfold isInMargin at h
  unfold isAtLineStart
  split at h
  · rename_i hmode
    rw [hmode]
  · cases h

/-- No turn is idle. -/
theorem Turn.advances (h : Turn state new next) : state.Advances next := by
  cases h with
  | last hstep => exact (moves_of_step hstep).advances
  | @more _ middle _ _ _ hstep hmargin hturn =>
    -- the first step of several stays in the margin, so it has read something
    rcases (moves_of_step hstep).advances with hread | ⟨-, -, hleft⟩
    · exact .inl (hread.trans_le hturn.steps.between.le)
    · rw [isAtLineStart_of_isInMargin hmargin] at hleft
      cases hleft

/-- Steps come closer to the end of a scan. -/
theorem Steps.stepBound_le (h : Steps state events next) : next.stepBound ≤ state.stepBound := by
  induction h with
  | refl => exact le_rfl
  | tail _ hstep ih => exact (stepBound_lt_of_step hstep).le.trans ih

/-- Each turn comes closer to the end of a scan. -/
theorem Turn.stepBound_lt (h : Turn state new next) : next.stepBound < state.stepBound := by
  cases h with
  | last hstep => exact stepBound_lt_of_step hstep
  | more hstep _ hturn => exact hturn.steps.stepBound_le.trans_lt (stepBound_lt_of_step hstep)

/-- A scan takes no more turns than its bound allows. -/
theorem Turns.add_stepBound_le (h : Turns state count events next) :
    count + next.stepBound ≤ state.stepBound := by
  induction h with
  | refl => exact (Nat.zero_add _).le
  | tail _ hturn ih =>
    have hcloser := hturn.stepBound_lt
    omega

/-- Turns can go on behind a first one. -/
theorem Turns.head (hturn : Turn state new middle) (h : Turns middle count events next) :
    Turns state (count + 1) (new ++ events) next := by
  induction h with
  | refl => simpa using Turns.refl.tail hturn
  | tail _ hlast ih =>
    rw [← List.append_assoc]
    exact ih.tail hlast

/-- The turns of a scan come to an end. -/
theorem exists_turns (state : ScanState) :
    ∃ count events last, Turns state count events last ∧ last.step = none := by
  induction hbound : state.stepBound using Nat.strong_induction_on generalizing state with
  | h bound ih =>
    by_cases hstep : state.step = none
    · exact ⟨0, [], state, .refl, hstep⟩
    · obtain ⟨new, next, hturn⟩ := exists_turn hstep
      obtain ⟨count, events, last, hturns, hlast⟩ := ih next.stepBound (hbound ▸ hturn.stepBound_lt) next rfl
      exact ⟨count + 1, new ++ events, last, hturns.head hturn, hlast⟩

/-! ### What is read -/

/-- What is sliced out of a text to go on from a state: all that is left, the lexeme at its front, and what the
rules look at on the way to it. A lexeme that a quote opens is one of the slices that are looked at. -/
structure ReadsSlices (source : List Char) (state : ScanState) : Prop where
  remainder : dropBytes? state.position.index source = some state.rest
  lexeme : ∃ lexeme, classify state.rest = some lexeme ∧
    slice? state.position.index (state.position.index + byteLength lexeme.text) source = some lexeme.text ∧
    ∀ quote, state.rest.head? = some quote → isQuote quote = true →
      byteLength lexeme.text ∈ sliceStops state.rest
  stops : ∀ stop ∈ sliceStops state.rest, IsBoundary stop state.rest

/-- A state that is not at the end of the text has its slices. -/
theorem Steps.readsSlices (h : Steps (.initial source) events state)
    (hindex : state.position.index < byteLength source) : state.ReadsSlices source := by
  obtain ⟨before, hsource, hmark⟩ := (Tracks.of_steps h).cut
  have hrest : state.rest ≠ [] := by
    intro hnil
    rw [hsource, hnil, List.append_nil, hmark.index_eq] at hindex
    exact Nat.lt_irrefl _ hindex
  obtain ⟨lexeme, hlexeme⟩ := exists_classify_of_ne_nil hrest
  refine ⟨?_, ⟨lexeme, hlexeme, ?_, fun quote hhead hquote => ?_⟩,
    fun stop hstop => isBoundary_of_mem_sliceStops hstop⟩
  · rw [hsource, hmark.index_eq]
    exact dropBytes?_append before state.rest
  · obtain ⟨-, after, hafter⟩ := isFront_of_classify hlexeme
    rw [hsource, hmark.index_eq, ← hafter, ← List.append_assoc, ← byteLength_append]
    exact slice?_append before lexeme.text after
  · exact byteLength_mem_sliceStops hquote hhead hlexeme

/-- The position of a state is a boundary of the text. -/
theorem Steps.isBoundary (h : Steps (.initial source) events state) :
    IsBoundary state.position.index source := by
  obtain ⟨before, after, rfl, hmark⟩ := (Tracks.of_steps h).isPlaceIn
  exact ⟨before, hmark.boundary⟩

/-- A state with text left that has not halted goes on. -/
theorem Steps.step_ne_none (h : Steps (.initial source) events state) (hmode : state.mode ≠ .halted)
    (hindex : state.position.index < byteLength source) : state.step ≠ none := by
  obtain ⟨lexeme, hlexeme, -⟩ := (h.readsSlices hindex).lexeme
  have hrest := (isFront_of_classify hlexeme).window_ne_nil
  rw [ne_eq, step_eq_none_iff]
  exact fun hend => hend.elim hrest hmode

/-- A state with no text left is at the end of the text. -/
theorem Steps.index_eq (h : Steps (.initial source) events state) (hrest : state.rest = []) :
    state.position.index = byteLength source := by
  obtain ⟨before, hsource, hmark⟩ := (Tracks.of_steps h).cut
  rw [hsource, hrest, List.append_nil]
  exact hmark.index_eq

/-- A state with text left is in front of the end of the text. -/
theorem Steps.index_lt (h : Steps (.initial source) events state) (hrest : state.rest ≠ []) :
    state.position.index < byteLength source := by
  obtain ⟨before, hsource, hmark⟩ := (Tracks.of_steps h).cut
  rw [hsource, byteLength_append, hmark.index_eq]
  exact Nat.lt_add_of_pos_right (byteLength_pos hrest)

/-! ### The end of input -/

/-- No move yields the end of input. -/
theorem Moves.kind_ne_endOfInput {token : Token} (h : state.Moves new next) (hmem : token ∈ Event.tokens new) :
    token.kind ≠ .endOfInput := by
  cases h.yielded_of_mem hmem with
  | layout hkind => rcases hkind with rfl | rfl <;> exact nofun
  | newline => exact nofun
  | word hlexeme =>
    rintro rfl
    cases isWord_of_classify hlexeme

/-- No step yields the end of input. -/
theorem Steps.kind_ne_endOfInput {token : Token} (h : Steps state events next)
    (hmem : token ∈ Event.tokens events) : token.kind ≠ .endOfInput := by
  induction h with
  | refl => cases hmem
  | tail _ hstep ih =>
    rw [Event.tokens_append] at hmem
    rcases List.mem_append.1 hmem with hmem | hmem
    · exact ih hmem
    · exact (moves_of_step hstep).kind_ne_endOfInput hmem

end ScanState

/-- The tokens of a scan end with the only end of input, at the place that the scan reached. -/
theorem exists_front_of_tokensOf (source : List Char) :
    ∃ front, tokensOf source = front ++ [.synthetic .endOfInput (Scan.ofSource source).position] ∧
      ∀ token ∈ front, token.kind ≠ .endOfInput := by
  have htokens := tokensOf_eq_run source
  rw [ScanState.tokens_finish, ← List.append_assoc] at htokens
  refine ⟨_, htokens, fun token hmem => ?_⟩
  rcases List.mem_append.1 hmem with hmem | hmem
  · exact (ScanState.steps_run (.initial source)).kind_ne_endOfInput hmem
  · obtain ⟨level, -, rfl⟩ := List.mem_map.1 hmem
    exact nofun

/-- A scan reaches the end of its text unless a fault is fatal. -/
theorem index_position_eq_iff (source : List Char) :
    (Scan.ofSource source).position.index = byteLength source ↔
      ∀ error ∈ faultsOf source, error.isFatal = false := by
  have hsteps := ScanState.steps_run (.initial source)
  constructor
  · intro hindex error hmem
    by_contra hfatal
    obtain ⟨fault, position⟩ := error
    cases fault with
    | unterminatedString | unrecognisedCharacter => exact hfatal rfl
    | inconsistentDedent width expected =>
      obtain ⟨-, hrest, -⟩ := halts_at_misfit hmem
      exact (hsteps.index_lt hrest).ne hindex
  · intro hfaults
    refine hsteps.index_eq (runs_to_end fun position width expected hmem => ?_).1
    cases hfaults _ hmem

/-- The tokens of a scan end with the only end of input. It is behind the whole text unless a fault is fatal. -/
theorem exists_tokensOf_eq_concat (source : List Char) :
    ∃ front position, tokensOf source = front ++ [.synthetic .endOfInput position] ∧
      (∀ token ∈ front, token.kind ≠ .endOfInput) ∧
      ((∀ error ∈ faultsOf source, error.isFatal = false) → position.index = byteLength source) := by
  obtain ⟨front, htokens, hfront⟩ := exists_front_of_tokensOf source
  exact ⟨front, _, htokens, hfront, (index_position_eq_iff source).2⟩

open ScanState

/-- In every state of a scan that is not at the end of the text, the position is a boundary of the text, there
is a lexeme, and all that is sliced is in the text. Between two turns another turn is taken, it comes to its
end, and it reads some bytes up to a boundary or leaves an empty margin. So a scan is a bounded number of turns
up to the end of the text or to where it halts, and its tokens end with the only end of input, which is behind
the whole text unless a fault is fatal. -/
theorem scan_advances (source : List Char) :
    (∀ events state, Steps (.initial source) events state → state.mode ≠ .halted →
      state.position.index < byteLength source →
        IsBoundary state.position.index source ∧ state.ReadsSlices source) ∧
      (∀ count events state, Turns (.initial source) count events state → count ≤ 2 * source.length + 1 ∧
        (state.mode ≠ .halted → state.position.index < byteLength source →
          (∃ new next, Turn state new next) ∧ ∀ new next, Turn state new next →
            state.Advances next ∧ IsBoundary next.position.index source ∧
              next.position.index ≤ byteLength source)) ∧
      (∃ count events last, Turns (.initial source) count events last ∧
        (last.position.index = byteLength source ∨ last.mode = .halted) ∧
        Scan.ofSource source = ⟨events ++ last.finish, last.position⟩) ∧
      ∃ front position, tokensOf source = front ++ [.synthetic .endOfInput position] ∧
        (∀ token ∈ front, token.kind ≠ .endOfInput) ∧
        ((∀ error ∈ faultsOf source, error.isFatal = false) → position.index = byteLength source) := by
  refine ⟨fun events state hsteps _ hindex => ⟨hsteps.isBoundary, hsteps.readsSlices hindex⟩,
    fun count events state hturns => ⟨?_, fun hmode hindex => ⟨?_, fun new next hturn => ?_⟩⟩, ?_,
    exists_tokensOf_eq_concat source⟩
  · have hbound := hturns.add_stepBound_le
    have hinitial : (ScanState.initial source).stepBound = 2 * source.length + 1 := rfl
    omega
  · exact exists_turn (hturns.steps.step_ne_none hmode hindex)
  · have hboundary := (hturns.steps.trans hturn.steps).isBoundary
    exact ⟨hturn.advances, hboundary, hboundary.le⟩
  · obtain ⟨count, events, last, hturns, hlast⟩ := exists_turns (.initial source)
    refine ⟨count, events, last, hturns, ?_, ?_⟩
    · exact ((step_eq_none_iff last).1 hlast).imp_left hturns.steps.index_eq
    · rw [Scan.ofSource, hturns.steps.run_eq, run_of_step_eq_none hlast, List.append_nil]

/-- A text of one character that starts no lexeme, of two bytes. Its first turn leaves an empty margin, and the
scan comes to the end behind the fault. -/
theorem scan_advances_over_unrecognised :
    ReadsSlices "é".toList (.initial "é".toList) ∧
      (∃ new next, Turn (.initial "é".toList) new next ∧ Advances (.initial "é".toList) next) ∧
      ∃ front position, tokensOf "é".toList = front ++ [.synthetic .endOfInput position] ∧
        position.index = 2 := by
  obtain ⟨hstates, hturns, -, front, position, htokens, -, hend⟩ := scan_advances "é".toList
  have hfaults : ∀ error ∈ faultsOf "é".toList, error.isFatal = false := by
    rw [faultsOf_eq_runFor]
    decide +kernel
  obtain ⟨-, hgo⟩ := hturns 0 [] (.initial "é".toList) .refl
  obtain ⟨⟨new, next, hturn⟩, hadvances⟩ := hgo nofun (by decide)
  exact ⟨(hstates [] _ .refl nofun (by decide)).2, ⟨new, next, hturn, (hadvances new next hturn).1⟩,
    front, position, htokens, hend hfaults⟩

end Offside
