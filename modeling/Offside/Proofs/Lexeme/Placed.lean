import Mathlib.Data.List.Pairwise
import Offside.Proofs.Lexeme.Boundary

/-!
# Lexemes in their places

The lexemes of a text stand one behind the other, and each covers the bytes from where it starts to where
it stops. No two of them overlap and none is empty, so every byte of the text is in exactly one of them.

Places are counted in bytes alone. Lines and columns play no part here.
-/

namespace Offside

open Text

/-- A lexeme and the byte index where it starts. -/
structure PlacedLexeme where
  reading : Reading
  text : List Char
  start : Nat
deriving DecidableEq, Repr

namespace PlacedLexeme

/-- The byte index just past the lexeme. -/
def stop (placed : PlacedLexeme) : Nat :=
  placed.start + byteLength placed.text

/-- Two lexemes that share no byte. -/
def Apart (a b : PlacedLexeme) : Prop :=
  a.stop ≤ b.start ∨ b.stop ≤ a.start

instance : Std.Symm Apart := ⟨fun _ _ => Or.symm⟩

end PlacedLexeme

/-- The text that lexemes cover together. -/
def joinTexts (lexemes : List Lexeme) : List Char :=
  (lexemes.map Lexeme.text).flatten

/-- Lexemes one behind the other, the first at a byte index. -/
def placeFrom : Nat → List Lexeme → List PlacedLexeme
  | _, [] => []
  | start, lexeme :: lexemes =>
    ⟨lexeme.reading, lexeme.text, start⟩ :: placeFrom (start + byteLength lexeme.text) lexemes

/-- The lexemes of a text in their places. -/
def placedLexemes (source : List Char) : List PlacedLexeme :=
  placeFrom 0 (segment source)

@[simp] theorem joinTexts_nil : joinTexts [] = [] := rfl

@[simp] theorem joinTexts_append (a b : List Lexeme) : joinTexts (a ++ b) = joinTexts a ++ joinTexts b := by
  simp [joinTexts]

@[simp] theorem joinTexts_singleton (lexeme : Lexeme) : joinTexts [lexeme] = lexeme.text := by
  simp [joinTexts]

/-- Lexemes behind others start where those stop. -/
theorem placeFrom_append (start : Nat) (a b : List Lexeme) :
    placeFrom start (a ++ b) = placeFrom start a ++ placeFrom (start + byteLength (joinTexts a)) b := by
  induction a generalizing start with
  | nil => rfl
  | cons lexeme lexemes ih => simp [placeFrom, ih, joinTexts, Nat.add_assoc]

/-- Placed lexemes are inside the bytes that they cover together. -/
theorem bounds_of_mem_placeFrom {start : Nat} {lexemes : List Lexeme} {placed : PlacedLexeme}
    (h : placed ∈ placeFrom start lexemes) :
    start ≤ placed.start ∧ placed.stop ≤ start + byteLength (joinTexts lexemes) := by
  induction lexemes generalizing start with
  | nil => cases h
  | cons lexeme lexemes ih =>
    have htotal : byteLength (joinTexts (lexeme :: lexemes)) =
        byteLength lexeme.text + byteLength (joinTexts lexemes) := by
      simp [joinTexts]
    rcases List.mem_cons.1 h with rfl | hmem
    · simp only [PlacedLexeme.stop]
      omega
    · have hbounds := ih hmem
      omega

/-- A placed lexeme is one of those that were placed. -/
theorem exists_of_mem_placeFrom {start : Nat} {lexemes : List Lexeme} {placed : PlacedLexeme}
    (h : placed ∈ placeFrom start lexemes) : ⟨placed.reading, placed.text⟩ ∈ lexemes := by
  induction lexemes generalizing start with
  | nil => cases h
  | cons lexeme lexemes ih =>
    rcases List.mem_cons.1 h with rfl | hmem
    · exact List.mem_cons_self
    · exact List.mem_cons_of_mem _ (ih hmem)

/-- Lexemes in their places follow one another. -/
theorem pairwise_placeFrom (start : Nat) (lexemes : List Lexeme) :
    (placeFrom start lexemes).Pairwise fun a b => a.stop ≤ b.start := by
  induction lexemes generalizing start with
  | nil => exact .nil
  | cons lexeme lexemes ih => exact .cons (fun placed h => (bounds_of_mem_placeFrom h).1) (ih _)

/-- Different lexemes in their places share no byte. -/
theorem apart_of_mem_placeFrom {start : Nat} {lexemes : List Lexeme} {a b : PlacedLexeme}
    (ha : a ∈ placeFrom start lexemes) (hb : b ∈ placeFrom start lexemes) (hne : a ≠ b) : a.Apart b := by
  have hpairwise : (placeFrom start lexemes).Pairwise PlacedLexeme.Apart :=
    (pairwise_placeFrom start lexemes).imp Or.inl
  exact hpairwise.forall ha hb hne

/-- Every byte that lexemes cover together is in exactly one of them. -/
theorem existsUnique_mem_placeFrom {start index : Nat} {lexemes : List Lexeme} (hstart : start ≤ index)
    (hindex : index < start + byteLength (joinTexts lexemes)) :
    ∃! placed, placed ∈ placeFrom start lexemes ∧ placed.start ≤ index ∧ index < placed.stop := by
  have hexists : ∃ placed ∈ placeFrom start lexemes, placed.start ≤ index ∧ index < placed.stop := by
    induction lexemes generalizing start with
    | nil =>
      rw [joinTexts_nil, byteLength_nil] at hindex
      omega
    | cons lexeme lexemes ih =>
      by_cases hhere : index < start + byteLength lexeme.text
      · exact ⟨_, List.mem_cons_self, hstart, hhere⟩
      · have htotal : byteLength (joinTexts (lexeme :: lexemes)) =
            byteLength lexeme.text + byteLength (joinTexts lexemes) := by
          simp [joinTexts]
        obtain ⟨placed, hmem, hcovers⟩ :=
          ih (show start + byteLength lexeme.text ≤ index by omega) (by omega)
        exact ⟨placed, List.mem_cons_of_mem _ hmem, hcovers⟩
  obtain ⟨placed, hmem, hcovers⟩ := hexists
  refine ⟨placed, ⟨hmem, hcovers⟩, fun other hother => ?_⟩
  by_contra hne
  rcases apart_of_mem_placeFrom hmem hother.1 (Ne.symm hne) with hapart | hapart
  · exact absurd hother.2.1 (by omega)
  · exact absurd hcovers.1 (by omega)

/-- Every lexeme has a place. -/
theorem exists_placed_of_mem {start : Nat} {lexemes : List Lexeme} {lexeme : Lexeme} (h : lexeme ∈ lexemes) :
    ∃ placed ∈ placeFrom start lexemes, placed.reading = lexeme.reading ∧ placed.text = lexeme.text := by
  obtain ⟨earlier, later, rfl⟩ := List.append_of_mem h
  rw [placeFrom_append]
  exact ⟨_, List.mem_append_right _ List.mem_cons_self, rfl, rfl⟩

/-- Every lexeme of a text was classified somewhere in it. -/
theorem exists_classify_of_mem_segment {source : List Char} {lexeme : Lexeme}
    (h : lexeme ∈ segment source) : ∃ window, classify window = some lexeme := by
  induction source using segment.induct with
  | case1 source hnone =>
    rw [classify_eq_none_iff.1 hnone, segment_nil] at h
    cases h
  | case2 source first hfirst ih =>
    rw [segment_of_classify hfirst] at h
    rcases List.mem_cons.1 h with rfl | hmem
    · exact ⟨source, hfirst⟩
    · exact ih hmem

/-- No lexeme of a text is empty. -/
theorem ne_nil_of_mem_segment {source : List Char} {lexeme : Lexeme} (h : lexeme ∈ segment source) :
    lexeme.text ≠ [] := by
  obtain ⟨window, hwindow⟩ := exists_classify_of_mem_segment h
  exact (isFront_of_classify hwindow).1

/-- The text of a lexeme is part of the whole text. -/
theorem subset_of_mem_segment {source : List Char} {lexeme : Lexeme} (h : lexeme ∈ segment source) :
    lexeme.text ⊆ source := by
  rw [← flatten_segment source]
  exact (List.sublist_flatten_of_mem (List.mem_map_of_mem h)).subset

/-- No lexeme of a text stops where it starts. -/
theorem start_lt_stop_of_mem {source : List Char} {placed : PlacedLexeme}
    (h : placed ∈ placedLexemes source) :
    placed.start < placed.stop :=
  Nat.lt_add_of_pos_right (byteLength_pos (ne_nil_of_mem_segment (exists_of_mem_placeFrom h)))

/-- Placing lexemes changes none of their texts. -/
theorem map_text_placeFrom (start : Nat) (lexemes : List Lexeme) :
    (placeFrom start lexemes).map PlacedLexeme.text = lexemes.map Lexeme.text := by
  induction lexemes generalizing start with
  | nil => rfl
  | cons lexeme lexemes ih => simp [placeFrom, ih]

/-- The lexemes that start in front of a lexeme boundary are those that stop there. -/
theorem filter_placeFrom {read unread : List Lexeme} (hne : ∀ lexeme ∈ read, lexeme.text ≠ []) :
    ((placeFrom 0 (read ++ unread)).filter fun placed => placed.start < byteLength (joinTexts read)) =
      placeFrom 0 read := by
  rw [placeFrom_append, List.filter_append, List.filter_eq_self.2, List.filter_eq_nil_iff.2,
    List.append_nil]
  · intro placed hmem
    have hbounds := bounds_of_mem_placeFrom hmem
    simp only [decide_eq_true_eq]
    omega
  · intro placed hmem
    have hbounds := bounds_of_mem_placeFrom hmem
    have hpos : 0 < byteLength placed.text := byteLength_pos (hne _ (exists_of_mem_placeFrom hmem))
    simp only [PlacedLexeme.stop] at hbounds
    simp only [decide_eq_true_eq]
    omega

/-- Where some text is left, a lexeme starts. -/
theorem exists_placed_of_ne_nil {source rest : List Char} {read : List Lexeme}
    (h : segment source = read ++ segment rest) (hne : rest ≠ []) :
    ∃ placed ∈ placedLexemes source, placed.start = byteLength (joinTexts read) := by
  obtain ⟨lexeme, hlexeme⟩ := exists_classify_of_ne_nil hne
  refine ⟨⟨lexeme.reading, lexeme.text, byteLength (joinTexts read)⟩, ?_, rfl⟩
  rw [placedLexemes, h, segment_of_classify hlexeme, placeFrom_append, Nat.zero_add]
  exact List.mem_append_right _ List.mem_cons_self

end Offside
