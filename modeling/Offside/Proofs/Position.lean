import Offside.Position
import Offside.Proofs.Text

/-!
# Positions of cuts

Advancing over a text counts its line breaks, the characters of its last line and its bytes. Advancing
over two pieces one after the other is the same as advancing over both at once, unless the cut between
them falls inside a pair of line end characters.

A position marks a cut of a text when it is what advancing over the front gives and the cut falls
inside no such pair. Marks carry over from the start of a piece to its end.
-/

namespace Offside.Position

open Text

/-- A line end character ends a line, unless it is the first of a pair. -/
theorem endsLine_of_not_pair {c : Char} {next : Option Char} (h : c = '\r' → next ≠ some '\n') :
    endsLine c next = isLineEnd c := by
  by_cases hc : c = '\r'
  · have hnext : (next != some '\n') = true := bne_iff_ne.2 (h hc)
    rw [endsLine, isLineEnd, hnext, Bool.and_true]
  · have hcr : (c == '\r') = false := beq_eq_false_iff_ne.2 hc
    rw [endsLine, isLineEnd, hcr, Bool.false_and]

/-- The line grows by the number of line breaks. -/
theorem line_advanceOver (p : Position) (text : List Char) :
    (p.advanceOver text).line = p.line + lineBreaks text := by
  fun_induction lineBreaks text generalizing p with
  | case1 => rfl
  | case2 cs ih =>
    rw [advanceOver_cons, advanceOver_cons, ih]
    simp [advanceBefore, endsLine, Nat.add_assoc, Nat.add_comm 1]
  | case3 c cs hpair ih =>
    have hends : endsLine c cs.head? = isLineEnd c := endsLine_of_not_pair fun hc hhead =>
      not_cutsPair_singleton hpair ⟨congrArg some hc, hhead⟩
    rw [advanceOver_cons, ih, advanceBefore, hends]
    split <;> simp_all [Nat.add_assoc, Nat.add_comm 1]

/-- The column starts over behind the last line break. -/
theorem column_advanceOver (p : Position) (text : List Char) :
    (p.advanceOver text).column =
      if text.any isLineEnd then (openLine text).length else p.column + text.length := by
  induction text generalizing p with
  | nil => rfl
  | cons c cs ih =>
    rw [advanceOver_cons, ih, openLine_cons]
    by_cases hcs : cs.any isLineEnd
    · simp [hcs]
    · have hnext : cs.head? ≠ some '\n' := by
        intro hhead
        obtain ⟨ds, rfl⟩ := List.head?_eq_some_iff.1 hhead
        simp [isLineEnd] at hcs
      have hends : endsLine c cs.head? = isLineEnd c := endsLine_of_not_pair fun _ => hnext
      by_cases hc : isLineEnd c
      · simp [hcs, hc, advanceBefore, hends]
      · simp [hcs, hc, advanceBefore, hends]
        omega

/-- Advancing over two pieces is advancing over both at once, unless a pair is cut between them. -/
theorem advanceOver_append (p : Position) {a b : List Char} (h : ¬ CutsPair a b) :
    p.advanceOver (a ++ b) = (p.advanceOver a).advanceOver b := by
  induction a generalizing p with
  | nil => rfl
  | cons c cs ih =>
    cases cs with
    | nil =>
      have hends : endsLine c b.head? = isLineEnd c := by
        refine endsLine_of_not_pair fun hc hb => h ⟨?_, hb⟩
        rw [hc]
        rfl
      have hlast : endsLine c none = isLineEnd c := endsLine_of_not_pair (by simp)
      change (p.advanceBefore c b.head?).advanceOver b = (p.advanceBefore c none).advanceOver b
      rw [advanceBefore, advanceBefore, hends, hlast]
    | cons d ds =>
      have hrest : ¬ CutsPair (d :: ds) b := fun hcut => h ⟨by simpa using hcut.1, hcut.2⟩
      rw [List.cons_append, advanceOver_cons, advanceOver_cons, ih _ hrest]
      rfl

/-- The position of the cut between `before` and `after`. -/
structure MarksCut (p : Position) (before after : List Char) : Prop where
  /-- It is what advancing over the front in one piece gives. -/
  advanced : p = start.advanceOver before
  /-- Its index falls between two characters. -/
  boundary : takeBytes? p.index (before ++ after) = some before
  line_eq : p.line = 1 + lineBreaks before
  column_eq : p.column = (openLine before).length
  /-- The cut is not inside a line end. -/
  whole : ¬ CutsPair before after

/-- The position behind the front of a text marks the cut, if no line end is cut. -/
theorem marksCut_advanceOver {before after : List Char} (h : ¬ CutsPair before after) :
    (start.advanceOver before).MarksCut before after where
  advanced := rfl
  boundary := by
    rw [index_advanceOver]
    simpa [start] using takeBytes?_append before after
  line_eq := line_advanceOver start before
  column_eq := by
    rw [column_advanceOver]
    by_cases hends : before.any isLineEnd = true
    · rw [if_pos hends]
    · rw [if_neg hends]
      have hall : ∀ c ∈ before, (!isLineEnd c) = true := by simpa using hends
      rw [openLine, List.rtakeWhile_eq_self_iff.2 hall]
      exact Nat.zero_add _
  whole := h

/-- The index of a position that marks a cut is the byte length of the front. -/
theorem MarksCut.index_eq {p : Position} {before after : List Char} (h : p.MarksCut before after) :
    p.index = byteLength before :=
  (byteLength_of_takeBytes? h.boundary).symm

/-- The start marks the cut in front of a text. -/
theorem marksCut_start (source : List Char) : start.MarksCut [] source :=
  @marksCut_advanceOver [] source fun hcut => by simp [CutsPair] at hcut

/-- Advancing over a piece goes from the cut in front of it to the cut behind it. -/
theorem MarksCut.advanceOver {p : Position} {before text after : List Char}
    (h : p.MarksCut before (text ++ after)) (hne : text ≠ []) (hwhole : ¬ CutsPair text after) :
    (p.advanceOver text).MarksCut (before ++ text) after := by
  have hfront : ¬ CutsPair before text := by
    rw [← cutsPair_append_right hne before after]
    exact h.whole
  rw [h.advanced, ← advanceOver_append start hfront]
  apply marksCut_advanceOver
  rw [cutsPair_append_left hne]
  exact hwhole

/-- The position is that of a cut of the text, and not inside a line end. -/
def IsPlaceIn (p : Position) (source : List Char) : Prop :=
  ∃ before after, source = before ++ after ∧ p.MarksCut before after

/-! ### Positions further on -/

/-- The position that many lines and bytes further on, in the same column. -/
def shift (p : Position) (lines bytes : Nat) : Position :=
  ⟨p.line + lines, p.column, p.index + bytes⟩

/-- Advancing over one character goes on from wherever it starts. -/
theorem advanceBefore_shift (p : Position) (lines bytes : Nat) (c : Char) (next : Option Char) :
    (p.shift lines bytes).advanceBefore c next = (p.advanceBefore c next).shift lines bytes := by
  unfold advanceBefore
  split <;> simp [shift, Nat.add_right_comm]

/-- Advancing over a text goes on from wherever it starts. -/
theorem advanceOver_shift (p : Position) (lines bytes : Nat) (text : List Char) :
    (p.shift lines bytes).advanceOver text = (p.advanceOver text).shift lines bytes := by
  induction text generalizing p with
  | nil => rfl
  | cons c cs ih => rw [advanceOver_cons, advanceBefore_shift, ih, advanceOver_cons]

/-! ### Positions that read the same -/

variable {p q : Position}

/-- A position with the same line and column as another. -/
structure Beside (p q : Position) : Prop where
  line : q.line = p.line
  column : q.column = p.column

/-- Advancing over one character depends on line and column only for the same. -/
theorem Beside.advanceBefore (h : p.Beside q) (c : Char) (next : Option Char) :
    (p.advanceBefore c next).Beside (q.advanceBefore c next) := by
  unfold Position.advanceBefore
  split
  · exact ⟨congrArg (· + 1) h.line, rfl⟩
  · exact ⟨h.line, congrArg (· + 1) h.column⟩

/-- Advancing over a text keeps positions beside each other. -/
theorem Beside.advanceOver (h : p.Beside q) (text : List Char) :
    (p.advanceOver text).Beside (q.advanceOver text) := by
  induction text generalizing p q with
  | nil => exact h
  | cons c cs ih => exact ih (h.advanceBefore c cs.head?)

/-- A space takes the column of any character that ends no line. -/
theorem Beside.advance_space (h : p.Beside q) {c : Char} (hc : isLineEnd c = false) :
    (p.advanceOver [c]).Beside (q.advanceOver [' ']) := by
  have hends : ∀ d : Char, isLineEnd d = false → endsLine d none = false := by
    intro d hd
    simpa [isLineEnd, endsLine] using hd
  have hspace := hends ' ' rfl
  have hother := hends c hc
  simp only [advanceOver_cons, advanceOver_nil, List.head?_nil, Position.advanceBefore, hspace, hother]
  exact ⟨h.line, congrArg (· + 1) h.column⟩

end Offside.Position
