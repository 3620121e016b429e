import Mathlib.Data.List.Count
import Offside.Proofs.Lexeme.Boundary
import Offside.Proofs.Scan.Halting

/-!
# Open blocks and their tokens

The blocks that a scan has open are nested: each is wider than the one around it, and all are wider than
the outermost level. Every block that is opened yields one token and every block that is closed yields
another, so at any time the number of open blocks is the difference of the two.

The same holds while several blocks are closed one after another, by a line or in the end, and it holds
where a scan halts. A scan therefore never closes more blocks than it has opened, and in the end it has
closed them all.
-/

namespace Offside

/-- The number of tokens that open a block. -/
def indents (tokens : List Token) : Nat :=
  tokens.countP (·.kind == .indent)

/-- The number of tokens that close a block. -/
def dedents (tokens : List Token) : Nat :=
  tokens.countP (·.kind == .dedent)

@[simp] theorem indents_append (a b : List Token) : indents (a ++ b) = indents a + indents b :=
  List.countP_append

@[simp] theorem dedents_append (a b : List Token) : dedents (a ++ b) = dedents a + dedents b :=
  List.countP_append

/-- Tokens that close blocks open none. -/
@[simp] theorem indents_map_dedent (closed : List Nat) (position : Position) :
    indents (closed.map fun _ => .synthetic .dedent position) = 0 := by
  rw [indents, List.countP_map, List.countP_eq_zero]
  exact fun _ _ => Bool.false_ne_true

/-- Each closed block has its token. -/
@[simp] theorem dedents_map_dedent (closed : List Nat) (position : Position) :
    dedents (closed.map fun _ => .synthetic .dedent position) = closed.length := by
  rw [dedents, List.countP_map, List.countP_eq_length]
  exact fun _ _ => rfl

/-- A front of some tokens closes no more blocks than all of them. -/
theorem dedents_le_of_isPrefix {front tokens : List Token} (h : front <+: tokens) :
    dedents front ≤ dedents tokens :=
  h.sublist.countP_le

/-- The levels of a scan, outermost first, as its tokens account for them. -/
structure OpenBlocks (tokens : List Token) (stack : List Nat) : Prop where
  increasing : stack.Pairwise (· < ·)
  outermost : stack.head? = some 0
  balance : (stack.length : ℤ) - 1 = indents tokens - dedents tokens

/-- A width that a line can neither open a block with nor return to. -/
structure Misfits (width : Nat) (expected : List Nat) : Prop where
  increasing : expected.Pairwise (· < ·)
  outermost : expected.head? = some 0
  positive : 0 < width
  narrow : ∃ last, expected.getLast? = some last ∧ width < last
  unmatched : width ∉ expected

/-- The open blocks are nested, innermost first, and the tokens account for them from the first one on. -/
structure Nested (tokens : List Token) (blocks : List Nat) : Prop where
  narrowing : blocks.Pairwise (· > ·)
  positive : ∀ level ∈ blocks, 0 < level
  balance : indents tokens = dedents tokens + blocks.length
  fronts : ∀ front, front <+: tokens → dedents front ≤ indents front

namespace Nested

variable {tokens more : List Token} {blocks closed kept : List Nat} {width : Nat}

/-- No block is wider than the innermost. -/
theorem le_innermost (h : Nested tokens blocks) {level : Nat} (hlevel : level ∈ blocks) :
    level ≤ innermost blocks := by
  have hnarrowing := h.narrowing
  cases blocks with
  | nil => cases hlevel
  | cons inner outer =>
    rcases List.mem_cons.1 hlevel with rfl | houter
    · exact le_rfl
    · exact le_of_lt (List.rel_of_pairwise_cons hnarrowing houter)

/-- More tokens keep every front in order when they close no more blocks than are open. -/
theorem fronts_append (h : Nested tokens blocks)
    (hmore : ∀ front, front <+: more → dedents front ≤ blocks.length + indents front) :
    ∀ front, front <+: tokens ++ more → dedents front ≤ indents front := by
  intro front hfront
  obtain ⟨after, hsplit⟩ := hfront
  rcases List.append_eq_append_iff.1 hsplit with ⟨left, hfirst, -⟩ | ⟨later, rfl, hsecond⟩
  · exact h.fronts front ⟨left, hfirst.symm⟩
  · have hbalance := h.balance
    have hclosed := hmore later ⟨after, hsecond.symm⟩
    rw [indents_append, dedents_append]
    omega

/-- Tokens of other kinds leave the blocks alone. -/
theorem append (h : Nested tokens blocks) (hindents : indents more = 0) (hdedents : dedents more = 0) :
    Nested (tokens ++ more) blocks where
  narrowing := h.narrowing
  positive := h.positive
  balance := by
    rw [indents_append, dedents_append, hindents, hdedents]
    exact h.balance
  fronts := h.fronts_append fun front hfront => by
    have hle := dedents_le_of_isPrefix hfront
    omega

/-- A block that is wider than the innermost is nested in it. -/
theorem push (h : Nested tokens blocks) (hwider : innermost blocks < width) (position : Position) :
    Nested (tokens ++ [.synthetic .indent position]) (width :: blocks) where
  narrowing := List.pairwise_cons.2 ⟨fun _ hlevel => lt_of_le_of_lt (h.le_innermost hlevel) hwider,
    h.narrowing⟩
  positive := List.forall_mem_cons.2 ⟨Nat.zero_lt_of_lt hwider, h.positive⟩
  balance := by
    have hbalance := h.balance
    have hindent : indents [.synthetic .indent position] = 1 := rfl
    have hdedent : dedents [.synthetic .indent position] = 0 := rfl
    rw [indents_append, dedents_append, hindent, hdedent, List.length_cons]
    omega
  fronts := h.fronts_append fun front hfront => by
    have hle := dedents_le_of_isPrefix hfront
    have hdedent : dedents [.synthetic .indent position] = 0 := rfl
    omega

/-- Closing the innermost blocks leaves the others nested. -/
theorem pop (h : Nested tokens (closed ++ kept)) (position : Position) :
    Nested (tokens ++ closed.map fun _ => .synthetic .dedent position) kept where
  narrowing := (List.pairwise_append.1 h.narrowing).2.1
  positive := fun level hlevel => h.positive level (List.mem_append_right _ hlevel)
  balance := by
    have hbalance := h.balance
    rw [List.length_append] at hbalance
    rw [indents_append, dedents_append, indents_map_dedent, dedents_map_dedent]
    omega
  fronts := h.fronts_append fun front hfront => by
    have hle := dedents_le_of_isPrefix hfront
    rw [dedents_map_dedent] at hle
    rw [List.length_append]
    omega

/-- Nested blocks increase from the outermost level on. -/
theorem pairwise_levels (h : Nested tokens blocks) : (levels blocks).Pairwise (· < ·) := by
  refine List.pairwise_cons.2 ⟨fun level hlevel => ?_, List.pairwise_reverse.2 h.narrowing⟩
  exact h.positive level (List.mem_reverse.1 hlevel)

/-- The tokens account for nested blocks. -/
theorem openBlocks (h : Nested tokens blocks) : OpenBlocks tokens (levels blocks) where
  increasing := h.pairwise_levels
  outermost := rfl
  balance := by
    have hbalance := h.balance
    simp only [levels, List.length_cons, List.length_reverse]
    omega

/-- A width between two nested blocks misfits. -/
theorem misfits (h : Nested tokens (closed ++ kept)) (hclosed : ∀ level ∈ closed, width < level)
    (hkept : innermost kept < width) (hnarrow : width ≤ innermost (closed ++ kept)) :
    Misfits width (levels (closed ++ kept)) where
  increasing := h.pairwise_levels
  outermost := rfl
  positive := Nat.zero_lt_of_lt hkept
  narrow := by
    cases closed with
    | nil => exact absurd hkept (Nat.not_lt.2 hnarrow)
    | cons inner outer =>
      refine ⟨inner, ?_, hclosed inner List.mem_cons_self⟩
      rw [levels, List.cons_append, List.reverse_cons, ← List.cons_append]
      exact List.getLast?_concat
  unmatched := by
    intro hmem
    have houter := h.pop .start
    rcases List.mem_cons.1 hmem with rfl | hmem
    · exact Nat.not_lt_zero _ hkept
    · rcases List.mem_append.1 (List.mem_reverse.1 hmem) with hinner | hlevel
      · exact Nat.lt_irrefl _ (hclosed width hinner)
      · exact absurd (houter.le_innermost hlevel) (Nat.not_le.2 hkept)

end Nested

namespace ScanState

/-- The tokens left behind account for the open blocks, and only misfits were reported as such. -/
structure KeepsBlocks (events : List Event) (state : ScanState) : Prop where
  nested : Nested (Event.tokens events) state.blocks
  misfits : ∀ position width expected,
    ⟨.inconsistentDedent width expected, position⟩ ∈ Event.errors events → Misfits width expected

namespace KeepsBlocks

variable {events new : List Event} {state next : ScanState}

/-- A move that reports no misfit keeps account of the blocks if its tokens do. -/
theorem extend (h : KeepsBlocks events state)
    (hnested : Nested (Event.tokens events ++ Event.tokens new) next.blocks)
    (hmisfits : ∀ error ∈ Event.errors new, error.isFatal = false) :
    KeepsBlocks (events ++ new) next where
  nested := by
    rw [Event.tokens_append]
    exact hnested
  misfits := fun position width expected hmem => by
    rw [Event.errors_append] at hmem
    rcases List.mem_append.1 hmem with hmem | hmem
    · exact h.misfits position width expected hmem
    · exact absurd (hmisfits _ hmem) (by simp [LocatedFault.isFatal, Fault.isFatal])

/-- Every move keeps account of the blocks. -/
theorem move (h : KeepsBlocks events state) (hmove : state.Moves new next) :
    KeepsBlocks (events ++ new) next := by
  have hnested := h.nested
  cases hmove with
  | skipsInMargin hmode hlexeme htrivia =>
    exact h.extend (hnested.append rfl rfl) (fun _ hmem => by cases hmem)
  | skipsInLine hmode hlexeme htrivia hjoined =>
    exact h.extend (hnested.append rfl rfl) (fun _ hmem => by cases hmem)
  | opens hmode hlexeme htrivia hwider =>
    exact h.extend (hnested.push hwider state.position) (fun _ hmem => by cases hmem)
  | settles hmode hlexeme htrivia hblocks hclosed hkept =>
    rw [hblocks] at hnested
    refine h.extend ?_ (fun _ hmem => by simp at hmem)
    rw [tokens_closing]
    exact hnested.pop state.position
  | @misfits measured lexeme closed kept error hmode hlexeme htrivia hblocks hclosed hkept hnarrow herror =>
    rw [hblocks] at hnested hnarrow herror
    refine ⟨?_, fun position width expected hmem => ?_⟩
    · simpa using hnested.pop state.position
    · rw [Event.errors_append] at hmem
      rcases List.mem_append.1 hmem with hmem | hmem
      · exact h.misfits position width expected hmem
      · obtain rfl : ⟨.inconsistentDedent width expected, position⟩ = error := by simpa using hmem
        cases herror
        exact hnested.misfits hclosed hkept hnarrow
  | endsLine hmode hlexeme =>
    exact h.extend (hnested.append rfl rfl) (fun _ hmem => by cases hmem)
  | @yields depth kind text hmode hlexeme =>
    have hkind := isLayout_of_classify hlexeme
    refine h.extend (hnested.append ?_ ?_) (fun _ hmem => by cases hmem)
    · cases kind <;> first | rfl | cases hkind
    · cases kind <;> first | rfl | cases hkind
  | reports hmode hlexeme =>
    refine h.extend (hnested.append rfl rfl) (fun error hmem => ?_)
    obtain rfl : error = _ := by simpa using hmem
    exact recoverable_of_classify hlexeme

/-- Every state of a scan keeps account of the blocks. -/
theorem of_steps {source : List Char} (h : Steps (initial source) events state) :
    KeepsBlocks events state := by
  induction h with
  | refl =>
    refine ⟨⟨List.Pairwise.nil, fun _ hlevel => (List.not_mem_nil hlevel).elim, rfl, fun front hfront => ?_⟩,
      fun _ _ _ hmem => (List.not_mem_nil hmem).elim⟩
    rw [Event.tokens_nil, List.prefix_nil] at hfront
    rw [hfront]
    exact le_rfl
  | tail _ hstep ih => exact ih.move (moves_of_step hstep)

end KeepsBlocks

/-- Closing the blocks that are open in the end leaves the tokens in balance. -/
theorem nested_tokensOf (source : List Char) : Nested (tokensOf source) [] := by
  have hlast := (KeepsBlocks.of_steps (steps_run (.initial source))).nested
  rw [← List.append_nil (initial source).run.2.blocks] at hlast
  have hend : indents [.synthetic .endOfInput (initial source).run.2.position] = 0 ∧
      dedents [.synthetic .endOfInput (initial source).run.2.position] = 0 := ⟨rfl, rfl⟩
  rw [tokensOf_eq_run, tokens_finish, ← List.append_assoc]
  exact (hlast.pop _).append hend.1 hend.2

end ScanState

/-- In every state of a scan, and while it closes blocks one after another, the levels increase from zero
and the tokens account for them. No front of the tokens closes more blocks than it opens, all of them
together close as many, and every misfit that is reported lies between two levels. -/
theorem blocks_balance_tokens (source : List Char) :
    (∀ events state, ScanState.Steps (.initial source) events state →
      OpenBlocks (Event.tokens events) (levels state.blocks) ∧
      ∀ closed kept, state.blocks = closed ++ kept →
        OpenBlocks (Event.tokens events ++ closed.map fun _ => .synthetic .dedent state.position)
          (levels kept)) ∧
      (∀ front, front <+: tokensOf source → dedents front ≤ indents front) ∧
      indents (tokensOf source) = dedents (tokensOf source) ∧
      ∀ position width expected, ⟨.inconsistentDedent width expected, position⟩ ∈ faultsOf source →
        Misfits width expected := by
  have hend := ScanState.nested_tokensOf source
  refine ⟨fun events state h => ?_, hend.fronts, hend.balance, ?_⟩
  · have hnested := (ScanState.KeepsBlocks.of_steps h).nested
    refine ⟨hnested.openBlocks, fun closed kept hblocks => ?_⟩
    rw [hblocks] at hnested
    exact (hnested.pop state.position).openBlocks
  · rw [faultsOf_eq_run]
    exact (ScanState.KeepsBlocks.of_steps (ScanState.steps_run (.initial source))).misfits

example : faultsOf "a\n  b\n c\n".toList = [⟨.inconsistentDedent 1 [0, 2], ⟨3, 1, 7⟩⟩] := by
  rw [faultsOf_eq_runFor]
  decide +kernel

end Offside
