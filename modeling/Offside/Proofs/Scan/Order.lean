import Offside.Proofs.Lexeme.Boundary
import Offside.Proofs.Scan.Halting

/-!
# The order of tokens and faults

A scan leaves tokens and faults behind in the order of the text. What some steps leave behind stands between
the byte indices where they start and where they come to, and a token of a lexeme takes at least one byte.

A margin is read behind a line end or at the start of the text only, so whatever token with a text of its own
stands in front of a margin, the token of a line end stands between the two.
-/

namespace Offside.ScanState

open Text

variable {state next : ScanState} {events new : List Event}

/-- The tokens and faults of some events stand between two byte indices. -/
structure Between (first last : Nat) (events : List Event) : Prop where
  le : first ≤ last
  tokens : ∀ token ∈ Event.tokens events, first ≤ token.start.index ∧ token.stop.index ≤ last ∧
    token.start.index ≤ token.stop.index ∧
      (token.kind.isLayout = false → token.start.index < token.stop.index)
  errors : ∀ error ∈ Event.errors events, first ≤ error.position.index ∧ error.position.index ≤ last

namespace Between

variable {first middle last : Nat}

/-- Nothing stands between two indices. -/
theorem nil (h : first ≤ last) : Between first last [] :=
  ⟨h, fun _ hmem => (List.not_mem_nil hmem).elim, fun _ hmem => (List.not_mem_nil hmem).elim⟩

/-- Events that follow each other stand between the outer indices. -/
theorem append (hfirst : Between first middle events) (hlater : Between middle last new) :
    Between first last (events ++ new) where
  le := le_trans hfirst.le hlater.le
  tokens := fun token hmem => by
    have hle := hfirst.le
    have hle' := hlater.le
    rw [Event.tokens_append] at hmem
    rcases List.mem_append.1 hmem with hmem | hmem
    · obtain ⟨hstart, hstop, hproper⟩ := hfirst.tokens token hmem
      exact ⟨hstart, by omega, hproper⟩
    · obtain ⟨hstart, hstop, hproper⟩ := hlater.tokens token hmem
      exact ⟨by omega, hstop, hproper⟩
  errors := fun error hmem => by
    have hle := hfirst.le
    have hle' := hlater.le
    rw [Event.errors_append] at hmem
    rcases List.mem_append.1 hmem with hmem | hmem
    · have herror := hfirst.errors error hmem
      omega
    · have herror := hlater.errors error hmem
      omega

end Between

/-- Reading a lexeme goes on by at least one byte. -/
theorem index_lt_past {lexeme : Lexeme} (hlexeme : classify state.rest = some lexeme) (mode : Mode) :
    state.position.index < (state.past lexeme.text mode).position.index := by
  have hpositive := byteLength_pos (isFront_of_classify hlexeme).1
  simp only [past, Position.index_advanceOver]
  omega

/-- What a move leaves behind stands where it is made. -/
theorem Moves.between (h : state.Moves new next) :
    Between state.position.index next.position.index new := by
  have hle : state.position.index ≤ next.position.index := by
    rcases h.stays_or_reads with ⟨-, hstays⟩ | ⟨lexeme, mode, hlexeme, rfl⟩
    · rw [hstays]
    · exact (index_lt_past hlexeme mode).le
  refine ⟨hle, fun token hmem => ?_, fun error hmem => ?_⟩
  · cases h.yielded_of_mem hmem with
    | layout hkind hstays =>
      rw [hstays]
      exact ⟨le_rfl, le_rfl, le_rfl, fun hproper => by rcases hkind with rfl | rfl <;> cases hproper⟩
    | newline hlexeme hreads | word hlexeme hreads =>
      have hlt := index_lt_past hlexeme .halted
      exact ⟨le_rfl, (congrArg Position.index hreads).ge, hlt.le, fun _ => hlt⟩
  · rw [(h.exists_lexeme_of_mem hmem).1]
    exact ⟨le_rfl, hle⟩

/-- What some steps leave behind stands between where they start and where they come to. -/
theorem Steps.between (h : Steps state events next) :
    Between state.position.index next.position.index events := by
  induction h with
  | refl => exact .nil le_rfl
  | tail _ hstep ih => exact ih.append (moves_of_step hstep).between

/-- In a margin, each token with a text of its own has a line end behind it. -/
theorem exists_newline_of_margin {source : List Char} {measured : Option Nat} {token : Token}
    (h : Steps (initial source) events state) (hmode : state.mode = .margin measured)
    (htoken : token ∈ Event.tokens events) (hproper : token.kind.isLayout = false) :
    ∃ newline ∈ Event.tokens events, newline.kind = .newline ∧
      token.stop.index ≤ newline.start.index ∧ newline.stop.index ≤ state.position.index := by
  induction h generalizing measured with
  | refl => cases htoken
  | @tail events new middle next hsteps hstep ih =>
    cases moves_of_step hstep with
    | skipsInMargin hmargin hlexeme =>
      rw [List.append_nil] at htoken ⊢
      obtain ⟨newline, hmem, hkind, hbehind, hstop⟩ := ih hmargin htoken
      exact ⟨newline, hmem, hkind, hbehind, le_trans hstop (le_of_lt (index_lt_past hlexeme _))⟩
    | @endsLine text hline hlexeme =>
      rw [Event.tokens_append] at htoken ⊢
      have hearlier : token ∈ Event.tokens events := by
        refine (List.mem_append.1 htoken).resolve_right fun hmem => ?_
        obtain rfl : token = .spanning .newline text middle.position := by simpa using hmem
        cases hproper
      refine ⟨.spanning .newline text middle.position, by simp, rfl, ?_, le_rfl⟩
      exact (hsteps.between.tokens token hearlier).2.1
    | _ => cases hmode

end Offside.ScanState
