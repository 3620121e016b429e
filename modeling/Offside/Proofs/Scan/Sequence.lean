import Offside.Proofs.Lines
import Offside.Proofs.Scan.Turns

/-!
# Positions and tokens in sequence

Line and column order the positions of a text as the byte index does. Advancing over a text that is not empty goes to
a later line, or to a later column of the same one, and of two places of a text one is reached from the other in this
way.

The tokens of a scan stand one behind the other. A token with a text stops behind its start, so the next one starts
elsewhere. The tokens of layout stop where they start, and are told apart by more: a margin that opens a block is read
behind all that opened one before, and the input ends once. So only the tokens that close blocks at one place read the
same.
-/

namespace Offside

open Text

/-! ### Line and column -/

namespace Position

variable {p q : Position} {source : List Char}

/-- A position is on an earlier line than another, or in an earlier column of its line. -/
def Precedes (p q : Position) : Prop :=
  p.line < q.line ∨ p.line = q.line ∧ p.column < q.column

/-- Advancing over some text goes on in lines and columns. -/
theorem precedes_advanceOver (p : Position) {text : List Char} (hne : text ≠ []) :
    p.Precedes (p.advanceOver text) := by
  rw [Precedes, line_advanceOver, column_advanceOver]
  by_cases hend : text.any isLineEnd = true
  · have hbreaks := lineBreaks_pos hend
    exact .inl (by omega)
  · have hbreaks := (lineBreaks_eq_zero (Bool.not_eq_true _ ▸ hend)).1
    have hlength := List.length_pos_iff.2 hne
    rw [if_neg hend]
    exact .inr (by omega)

/-- Of two places of a text, the one with the larger index is reached from the other. -/
theorem IsPlaceIn.exists_advanceOver (hp : p.IsPlaceIn source) (hq : q.IsPlaceIn source) (hle : p.index ≤ q.index) :
    ∃ text, q = p.advanceOver text := by
  obtain ⟨before, after, rfl, hmark⟩ := hp
  obtain ⟨before', after', hsource, hmark'⟩ := hq
  rw [hmark.index_eq, hmark'.index_eq] at hle
  obtain ⟨text, rfl⟩ := isPrefix_of_byteLength_le ⟨after, rfl⟩ ⟨after', hsource.symm⟩ hle
  refine ⟨text, ?_⟩
  rw [hmark.advanced, hmark'.advanced]
  by_cases hne : text = []
  · rw [hne, List.append_nil, advanceOver_nil]
  · have hwhole := hmark.whole
    rw [List.append_assoc] at hsource
    rw [List.append_cancel_left hsource, cutsPair_append_right hne] at hwhole
    exact advanceOver_append start hwhole

/-- Two places of a text are the same, or one precedes the other and has the smaller index. -/
theorem IsPlaceIn.eq_or_precedes (hp : p.IsPlaceIn source) (hq : q.IsPlaceIn source) (hle : p.index ≤ q.index) :
    q = p ∨ p.Precedes q ∧ p.index < q.index := by
  obtain ⟨text, rfl⟩ := hp.exists_advanceOver hq hle
  by_cases hne : text = []
  · exact .inl (by rw [hne, advanceOver_nil])
  · have hpositive := byteLength_pos hne
    refine .inr ⟨p.precedes_advanceOver hne, ?_⟩
    rw [index_advanceOver]
    omega

/-- Places of a text are in the order of their lines and columns. -/
theorem IsPlaceIn.index_lt_iff (hp : p.IsPlaceIn source) (hq : q.IsPlaceIn source) :
    p.index < q.index ↔ p.Precedes q := by
  constructor
  · intro hlt
    rcases hp.eq_or_precedes hq hlt.le with rfl | ⟨hprecedes, -⟩
    · exact absurd hlt (Nat.lt_irrefl _)
    · exact hprecedes
  · intro hprecedes
    by_contra hge
    rw [Precedes] at hprecedes
    rcases hq.eq_or_precedes hp (Nat.not_lt.1 hge) with rfl | ⟨hbehind, -⟩
    · omega
    · rw [Precedes] at hbehind
      omega

/-- Places of a text with the same line and column are the same. -/
theorem IsPlaceIn.eq_of_line_column (hp : p.IsPlaceIn source) (hq : q.IsPlaceIn source) (hline : p.line = q.line)
    (hcolumn : p.column = q.column) : p = q := by
  have hsame : ∀ {p q : Position}, p.line = q.line → p.column = q.column → ¬ p.Precedes q := by
    intro p q hline hcolumn hprecedes
    rw [Precedes] at hprecedes
    omega
  rcases Nat.le_total p.index q.index with hle | hle
  · exact ((hp.eq_or_precedes hq hle).resolve_right fun h => hsame hline hcolumn h.1).symm
  · exact (hq.eq_or_precedes hp hle).resolve_right fun h => hsame hline.symm hcolumn.symm h.1

end Position

/-! ### Tokens one behind the other -/

/-- How a token stands to each one that comes later in a scan. -/
structure Token.ComesBefore (a b : Token) : Prop where
  stop_le : a.stop.index ≤ b.start.index
  /-- No two tokens open a block at one place. -/
  apart : a.kind = .indent → b.kind = .indent → a.start.index < b.start.index
  /-- Nothing comes behind the end of input. -/
  goes_on : a.kind ≠ .endOfInput

/-- Tokens that close blocks at one place come one before the other. -/
theorem Token.comesBefore_of_dedents (closed : List Nat) (position : Position) :
    (closed.map fun _ => Token.synthetic .dedent position).Pairwise Token.ComesBefore := by
  rw [List.map_const', List.pairwise_replicate]
  exact .inr ⟨le_rfl, nofun, nofun⟩

namespace ScanState

variable {state next : ScanState} {events new : List Event} {token : Token}

/-- A move that ends in a margin opens no block, and goes on by at least one byte. -/
theorem Moves.reads_of_margin {measured : Option Nat} (h : state.Moves new next)
    (hmode : next.mode = .margin measured) :
    state.position.index < next.position.index ∧ ∀ token ∈ Event.tokens new, token.kind ≠ .indent := by
  cases h with
  | skipsInMargin hmargin hlexeme => exact ⟨index_lt_past hlexeme _, fun _ hmem => nomatch hmem⟩
  | endsLine hline hlexeme =>
    refine ⟨index_lt_past hlexeme _, fun token hmem => ?_⟩
    obtain rfl : token = .spanning .newline _ state.position := by simpa using hmem
    exact nofun
  | _ => cases hmode

/-- A margin is read behind all tokens that opened a block before. -/
theorem Steps.start_lt_of_indent {first : ScanState} {measured : Option Nat} (h : Steps first events state)
    (hmode : state.mode = .margin measured) (htoken : token ∈ Event.tokens events) (hkind : token.kind = .indent) :
    token.start.index < state.position.index := by
  cases h with
  | refl => cases htoken
  | tail hsteps hstep =>
    obtain ⟨hreads, hnew⟩ := (moves_of_step hstep).reads_of_margin hmode
    rw [Event.tokens_append] at htoken
    rcases List.mem_append.1 htoken with htoken | htoken
    · obtain ⟨-, hstop, hle, -⟩ := hsteps.between.tokens token htoken
      omega
    · exact absurd hkind (hnew token htoken)

/-- A token that opens a block is yielded in a margin. -/
theorem Moves.exists_margin_of_indent (h : state.Moves new next) (hmem : token ∈ Event.tokens new)
    (hkind : token.kind = .indent) : ∃ measured, state.mode = .margin measured := by
  cases h with
  | skipsInMargin hmode | opens hmode | settles hmode | misfits hmode => exact ⟨_, hmode⟩
  | skipsInLine | reports => simp at hmem
  | endsLine =>
    obtain rfl : token = .spanning .newline _ state.position := by simpa using hmem
    cases hkind
  | yields hmode hlexeme =>
    obtain rfl : token = .spanning _ _ state.position := by simpa using hmem
    cases hkind
    cases isWord_of_classify hlexeme

/-- The tokens of a move come one before the other. -/
theorem Moves.pairwise_comesBefore (h : state.Moves new next) :
    (Event.tokens new).Pairwise Token.ComesBefore := by
  cases h with
  | skipsInMargin | skipsInLine | reports => exact .nil
  | opens | endsLine | yields => exact List.pairwise_singleton _ _
  | @settles measured lexeme closed kept =>
    rw [tokens_closing]
    exact Token.comesBefore_of_dedents closed state.position
  | @misfits measured lexeme closed kept =>
    rw [Event.tokens_append, tokens_closing]
    simpa using Token.comesBefore_of_dedents closed state.position

/-- The tokens of some steps come one before the other. -/
theorem Steps.pairwise_comesBefore {first : ScanState} (h : Steps first events state) :
    (Event.tokens events).Pairwise Token.ComesBefore := by
  induction h with
  | refl => exact .nil
  | tail hsteps hstep ih =>
    have hmove := moves_of_step hstep
    rw [Event.tokens_append, List.pairwise_append]
    refine ⟨ih, hmove.pairwise_comesBefore, fun a ha b hb => ⟨?_, fun hkind hkind' => ?_, ?_⟩⟩
    · exact (hsteps.between.tokens a ha).2.1.trans (hmove.between.tokens b hb).1
    · obtain ⟨measured, hmargin⟩ := hmove.exists_margin_of_indent hb hkind'
      exact (hsteps.start_lt_of_indent hmargin ha hkind).trans_le (hmove.between.tokens b hb).1
    · exact hsteps.kind_ne_endOfInput ha

/-- So do the tokens that end a scan. -/
theorem pairwise_finish (state : ScanState) : (Event.tokens state.finish).Pairwise Token.ComesBefore := by
  rw [tokens_finish, List.pairwise_append]
  refine ⟨Token.comesBefore_of_dedents _ _, List.pairwise_singleton _ _, fun a ha b hb => ?_⟩
  obtain ⟨level, -, rfl⟩ := List.mem_map.1 ha
  rw [List.mem_singleton.1 hb]
  exact ⟨le_rfl, nofun, nofun⟩

end ScanState

/-- The tokens of a text come one before the other. -/
theorem pairwise_comesBefore_tokensOf (source : List Char) : (tokensOf source).Pairwise Token.ComesBefore := by
  have hsteps := ScanState.steps_run (.initial source)
  rw [tokensOf_eq_run, List.pairwise_append]
  refine ⟨hsteps.pairwise_comesBefore, ScanState.pairwise_finish _, fun a ha b hb => ?_⟩
  rw [ScanState.tokens_finish] at hb
  obtain ⟨kind, hkind, rfl⟩ : ∃ kind : Kind, kind ≠ .indent ∧
      b = .synthetic kind (ScanState.initial source).run.2.position := by
    rcases List.mem_append.1 hb with hb | hb
    · obtain ⟨level, -, rfl⟩ := List.mem_map.1 hb
      exact ⟨.dedent, nofun, rfl⟩
    · exact ⟨.endOfInput, nofun, List.mem_singleton.1 hb⟩
  exact ⟨(hsteps.between.tokens a ha).2.1, fun _ hindent => absurd hindent hkind, hsteps.kind_ne_endOfInput ha⟩

/-- The kinds without a text open a block, close one or end the input. -/
theorem Kind.eq_of_isSynthetic {kind : Kind} (h : kind.isSynthetic = true) :
    kind = .indent ∨ kind = .dedent ∨ kind = .endOfInput := by
  cases kind <;> simp_all [Kind.isSynthetic]

/-- A token with a text stops behind its start. -/
theorem Token.IsPlacedIn.start_lt_stop {token : Token} {source : List Char} (h : token.IsPlacedIn source)
    (hkind : token.kind.isSynthetic = false) : token.start.index < token.stop.index := by
  obtain ⟨hne, hslice⟩ := h.slice_eq hkind
  obtain ⟨rest, -, htext⟩ := Option.bind_eq_some_iff.1 hslice
  have hlength := byteLength_of_takeBytes? htext
  have hpositive := byteLength_pos hne
  omega

/-- A token reads the same as a later one of the text just where both close blocks at one place. -/
theorem Token.ComesBefore.readsAs_iff {a b : Token} {source : List Char} (h : a.ComesBefore b)
    (ha : a.IsPlacedIn source) (hb : b.IsPlacedIn source) :
    a.readsAs b = true ↔ a.kind = .dedent ∧ b.kind = .dedent ∧ a.start = b.start := by
  rw [Token.readsAs_iff]
  constructor
  · rintro ⟨hkind, -, hline, hcolumn⟩
    have hstart := ha.start_isPlace.eq_of_line_column hb.start_isPlace hline hcolumn
    have hstop := h.stop_le
    rw [← hstart] at hstop
    suffices hdedent : a.kind = .dedent from ⟨hdedent, hkind ▸ hdedent, hstart⟩
    cases hsynthetic : a.kind.isSynthetic with
    | false => exact absurd (ha.start_lt_stop hsynthetic) (Nat.not_lt.2 hstop)
    | true =>
      have hindent : a.kind ≠ .indent := fun hindent =>
        absurd (h.apart hindent (hkind ▸ hindent)) (by rw [hstart]; exact Nat.lt_irrefl _)
      exact ((Kind.eq_of_isSynthetic hsynthetic).resolve_left hindent).resolve_right h.goes_on
  · rintro ⟨hdedent, hdedent', hstart⟩
    have htext := (ha.empty (by rw [hdedent]; rfl)).1
    have htext' := (hb.empty (by rw [hdedent']; rfl)).1
    exact ⟨hdedent.trans hdedent'.symm, htext.trans htext'.symm, by rw [hstart], by rw [hstart]⟩

/-- The positions of an analysis are in the order of their lines and columns, and its tokens one behind the other. No
token reads the same as another one of the text, except that the tokens that close blocks at one place do. -/
theorem positions_order_tokens (source : List Char) :
    (∀ p ∈ positionsOf source, ∀ q ∈ positionsOf source, p.index < q.index ↔ p.Precedes q) ∧
      (tokensOf source).Pairwise (fun a b => a.stop.index ≤ b.start.index) ∧
      (tokensOf source).Pairwise fun a b =>
        (a.readsAs b = true ↔ a.kind = .dedent ∧ b.kind = .dedent ∧ a.start = b.start) := by
  have hpairwise := pairwise_comesBefore_tokensOf source
  refine ⟨fun p hp q hq => ?_, hpairwise.imp fun h => h.stop_le, hpairwise.imp_of_mem fun ha hb h => ?_⟩
  · exact (isPlaceIn_of_mem_positionsOf hp).index_lt_iff (isPlaceIn_of_mem_positionsOf hq)
  · exact h.readsAs_iff (isPlacedIn_of_mem_tokensOf ha) (isPlacedIn_of_mem_tokensOf hb)

end Offside
