import Offside.Proofs.Lexeme.Boundary
import Offside.Proofs.Position
import Offside.Proofs.Scan.Halting

/-!
# Positions of a scan

A scan advances its position lexeme by lexeme, and each position it comes to is still what advancing over
the whole text in front of it gives. This holds because no lexeme ends inside a pair of line end
characters, where advancing in two parts would count a line too many.

Tokens and faults only carry such positions, and a token with a text carries those of its two ends.
-/

namespace Offside

open Text

/-- The ends of a token are positions of a text, and the text of the token is what stands between them.
A synthetic token stands for nothing at one place. -/
structure Token.IsPlacedIn (token : Token) (source : List Char) : Prop where
  start_isPlace : token.start.IsPlaceIn source
  stop_isPlace : token.stop.IsPlaceIn source
  slice_eq : token.kind.isSynthetic = false →
    token.text ≠ [] ∧ slice? token.start.index token.stop.index source = some token.text
  empty : token.kind.isSynthetic = true → token.text = [] ∧ token.start = token.stop

/-- A synthetic token is placed where its position is. -/
theorem Token.isPlacedIn_synthetic {kind : Kind} {position : Position} {source : List Char}
    (hkind : kind.isSynthetic = true) (h : position.IsPlaceIn source) :
    (Token.synthetic kind position).IsPlacedIn source where
  start_isPlace := h
  stop_isPlace := h
  slice_eq := fun hproper => absurd (hkind.symm.trans hproper) (by decide)
  empty := fun _ => ⟨rfl, rfl⟩

/-- A token that spans a piece of the text is placed between the ends of the piece. -/
theorem Token.isPlacedIn_spanning {kind : Kind} {position : Position} {before text after : List Char}
    (hkind : kind.isSynthetic = false) (hne : text ≠ [])
    (hstart : position.MarksCut before (text ++ after))
    (hstop : (position.advanceOver text).MarksCut (before ++ text) after) :
    (Token.spanning kind text position).IsPlacedIn (before ++ text ++ after) where
  start_isPlace := ⟨before, text ++ after, List.append_assoc _ _ _, hstart⟩
  stop_isPlace := ⟨before ++ text, after, rfl, hstop⟩
  slice_eq := fun _ => by
    refine ⟨hne, ?_⟩
    simp only [spanning, hstart.index_eq, hstop.index_eq]
    exact slice?_append before text after
  empty := fun hsynthetic => absurd (hsynthetic.symm.trans hkind) (by decide)

namespace ScanState

/-- The position of a state marks the cut between what was read and what is left, and everything left
behind is placed in the text. -/
structure Tracks (source : List Char) (events : List Event) (state : ScanState) : Prop where
  cut : ∃ before, source = before ++ state.rest ∧ state.position.MarksCut before state.rest
  tokens : ∀ token ∈ Event.tokens events, token.IsPlacedIn source
  errors : ∀ error ∈ Event.errors events, error.position.IsPlaceIn source

namespace Tracks

variable {source : List Char} {events new : List Event} {state next : ScanState}

/-- The position of a state is a place of the text. -/
theorem isPlaceIn (h : Tracks source events state) : state.position.IsPlaceIn source := by
  obtain ⟨before, hsource, hmark⟩ := h.cut
  exact ⟨before, state.rest, hsource, hmark⟩

/-- Reading a lexeme goes from one cut of the text to another, and a token of the lexeme is placed between
them. -/
theorem past {lexeme : Lexeme} (h : Tracks source events state)
    (hlexeme : classify state.rest = some lexeme) (mode : Mode) :
    (∃ before, source = before ++ (state.past lexeme.text mode).rest ∧
      (state.past lexeme.text mode).position.MarksCut before (state.past lexeme.text mode).rest) ∧
    ∀ kind : Kind, kind.isSynthetic = false →
      (Token.spanning kind lexeme.text state.position).IsPlacedIn source := by
  obtain ⟨before, hsource, hmark⟩ := h.cut
  obtain ⟨hne, rest, hrest⟩ := isFront_of_classify hlexeme
  have hdrop : (state.past lexeme.text mode).rest = rest := by
    simp [ScanState.past, ← hrest]
  have hwhole := not_cutsPair_of_classify hlexeme hrest.symm
  rw [← hrest] at hmark
  have hstop := hmark.advanceOver hne hwhole
  rw [← hrest, ← List.append_assoc] at hsource
  rw [hdrop]
  refine ⟨⟨before ++ lexeme.text, hsource, hstop⟩, fun kind hkind => ?_⟩
  rw [hsource]
  exact Token.isPlacedIn_spanning hkind hne hmark hstop

/-- What a move yields is placed in the text. -/
theorem isPlacedIn_of_yielded {token : Token} (h : Tracks source events state) (hyielded : Yielded state next token) :
    token.IsPlacedIn source := by
  cases hyielded with
  | layout hkind => rcases hkind with rfl | rfl <;> exact Token.isPlacedIn_synthetic rfl h.isPlaceIn
  | newline hlexeme => exact (h.past hlexeme .halted).2 .newline rfl
  | @word kind text hlexeme =>
    refine (h.past hlexeme .halted).2 kind ?_
    have hkind := isLayout_of_classify hlexeme
    cases kind <;> first | rfl | cases hkind

/-- Every move keeps track of the text. -/
theorem move (h : Tracks source events state) (hmove : state.Moves new next) :
    Tracks source (events ++ new) next where
  cut := by
    rcases hmove.stays_or_reads with ⟨hrest, hposition⟩ | ⟨lexeme, mode, hlexeme, rfl⟩
    · rw [hrest, hposition]
      exact h.cut
    · exact (h.past hlexeme mode).1
  tokens := fun token hmem => by
    rw [Event.tokens_append] at hmem
    exact (List.mem_append.1 hmem).elim (h.tokens token)
      fun hnew => h.isPlacedIn_of_yielded (hmove.yielded_of_mem hnew)
  errors := fun error hmem => by
    rw [Event.errors_append] at hmem
    refine (List.mem_append.1 hmem).elim (h.errors error) fun hnew => ?_
    rw [(hmove.exists_lexeme_of_mem hnew).1]
    exact h.isPlaceIn

/-- Every state of a scan keeps track of the text. -/
theorem of_steps (h : Steps (initial source) events state) : Tracks source events state := by
  induction h with
  | refl =>
    exact ⟨⟨[], rfl, Position.marksCut_start source⟩, fun _ hmem => (List.not_mem_nil hmem).elim,
      fun _ hmem => (List.not_mem_nil hmem).elim⟩
  | tail _ hstep ih => exact ih.move (moves_of_step hstep)

end Tracks

end ScanState

/-- The tokens of a text are placed in it. -/
theorem isPlacedIn_of_mem_tokensOf {source : List Char} {token : Token} (hmem : token ∈ tokensOf source) :
    token.IsPlacedIn source := by
  have hlast := ScanState.Tracks.of_steps (ScanState.steps_run (.initial source))
  rw [tokensOf_eq_run] at hmem
  rcases List.mem_append.1 hmem with hmem | hmem
  · exact hlast.tokens token hmem
  · obtain ⟨kind, hkind, rfl⟩ := ScanState.exists_synthetic_of_mem_finish hmem
    exact Token.isPlacedIn_synthetic hkind hlast.isPlaceIn

/-- The faults of a text are at places of it. -/
theorem isPlaceIn_of_mem_faultsOf {source : List Char} {error : LocatedFault} (hmem : error ∈ faultsOf source) :
    error.position.IsPlaceIn source := by
  rw [faultsOf_eq_run] at hmem
  exact (ScanState.Tracks.of_steps (ScanState.steps_run (.initial source))).errors error hmem

/-- Every position that a scan comes to, and every position of a token or a fault, is that of a cut of the
text, and the tokens cover their texts. -/
theorem positions_track_source (source : List Char) :
    (∀ events state, ScanState.Steps (.initial source) events state → state.position.IsPlaceIn source) ∧
      (Scan.ofSource source).position.IsPlaceIn source ∧
      (∀ token ∈ tokensOf source, token.IsPlacedIn source) ∧
      ∀ error ∈ faultsOf source, error.position.IsPlaceIn source := by
  have hlast := ScanState.Tracks.of_steps (ScanState.steps_run (.initial source))
  exact ⟨fun events state h => (ScanState.Tracks.of_steps h).isPlaceIn, hlast.isPlaceIn,
    fun _ => isPlacedIn_of_mem_tokensOf, fun _ => isPlaceIn_of_mem_faultsOf⟩

end Offside
