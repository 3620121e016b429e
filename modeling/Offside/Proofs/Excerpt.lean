import Offside.Proofs.Diagnostic
import Offside.Proofs.Lexeme.Slices

/-!
# Diagnostics of any place

A diagnostic can be asked for with any fault at any position, whether an analysis found it there or not. Only the
byte index of the position counts for the line that is shown. Every index up to the end of the source is on one
line: that of the byte there or, behind the last byte, the last line, unless that is ended and an empty one follows.

There is no diagnostic if the index falls inside a character, none of a line if it is beyond the source, and otherwise
the caret stands in the column of the index. A column among the spaces and tabs that are left out is drawn as the
first one. Where no line is too long for a caret, only an index inside a character keeps a diagnostic from being
printed to the end.
-/

namespace Offside

open Text

namespace Text

variable {source line front rest : List Char} {lines before : List (List Char)} {index : Nat}

/-- An index is on a line, behind some other lines. -/
inductive IsOnLine (lines : List (List Char)) (index : Nat) : List (List Char) → List Char → Prop
  /-- The line has the byte at the index. -/
  | byte {before : List (List Char)} {line : List Char} (hbyte : HoldsByte lines index before line) :
      IsOnLine lines index before line
  /-- The index is behind the last byte, and the last line is open. -/
  | last {before : List (List Char)} {line : List Char} (hlines : lines = before ++ [line])
      (hopen : isEnded line = false) (hindex : index = byteLength lines.flatten) : IsOnLine lines index before line
  /-- The index is behind the last byte, and all lines are ended. -/
  | behind (hended : ∀ line ∈ lines, isEnded line = true) (hindex : index = byteLength lines.flatten) :
      IsOnLine lines index lines []

/-- Every index up to the end of a text is on a line. -/
theorem exists_isOnLine (h : index ≤ byteLength source) :
    ∃ before line, IsOnLine (splitLines source) index before line := by
  have hflat := (areLines_splitLines source).flatten_eq
  rcases Nat.lt_or_eq_of_le h with hlt | rfl
  · rw [← hflat] at hlt
    obtain ⟨before, line, hbyte⟩ := exists_holdsByte hlt
    exact ⟨before, line, .byte hbyte⟩
  · rcases last_open_or_ended source with ⟨before, line, hlines, hopen⟩ | hended
    · exact ⟨before, line, .last hlines hopen (by rw [hflat])⟩
    · exact ⟨_, [], .behind hended (by rw [hflat])⟩

/-- The line that an index is on stands behind the other lines in the text. -/
theorem IsOnLine.isPrefix (h : IsOnLine lines index before line) : before.flatten ++ line <+: lines.flatten := by
  cases h with
  | byte hbyte =>
    obtain ⟨behind, rfl⟩ := hbyte.isPrefix
    exact ⟨behind.flatten, by simp⟩
  | last hlines => simp [hlines]
  | behind => simp

/-- An index is behind the lines in front of its line, and not beyond the line. -/
theorem IsOnLine.bounds (h : IsOnLine lines index before line) :
    byteLength before.flatten ≤ index ∧ index ≤ byteLength (before.flatten ++ line) := by
  cases h with
  | byte hbyte =>
    have hlt := hbyte.lt
    rw [byteLength_append]
    exact ⟨hbyte.le, hlt.le⟩
  | last hlines hopen hindex => simp [hindex, hlines]
  | behind hended hindex => simp [hindex]

/-- The line of an index is found for it, with the bytes of the line in front of the index. -/
theorem IsOnLine.lineAt?_eq (h : IsOnLine (splitLines source) index before line) :
    lineAt? source index = some ⟨before.length + 1, line, index - byteLength before.flatten⟩ := by
  have hflat := (areLines_splitLines source).flatten_eq
  cases h with
  | byte hbyte => exact lineAt?_of_holdsByte hbyte
  | last hlines hopen hindex =>
    have hline : index - byteLength before.flatten = byteLength line := by simp [hindex, hlines]
    rw [hindex, hflat] at hline ⊢
    rw [lineAt?_end_of_open hlines hopen, hline]
  | behind hended hindex =>
    rw [hindex, Nat.sub_self, hflat, lineAt?_end_of_ended hended]

/-- An index falls between two characters of a text if it does so in its line. -/
theorem IsOnLine.isBoundary_iff (h : IsOnLine (splitLines source) index before line) :
    IsBoundary index source ↔
      ∃ front rest, line = front ++ rest ∧ byteLength (before.flatten ++ front) = index := by
  obtain ⟨hle, hge⟩ := h.bounds
  have hline := h.isPrefix
  rw [(areLines_splitLines source).flatten_eq] at hline
  constructor
  · rintro ⟨read, hread⟩
    have hfront := prefix_of_takeBytes? hread
    obtain rfl := byteLength_of_takeBytes? hread
    -- what is in front of the index goes over the lines in front, and no further than the line
    obtain ⟨front, rfl⟩ := isPrefix_of_byteLength_le ((List.prefix_append _ _).trans hline) hfront hle
    obtain ⟨rest, hrest⟩ := isPrefix_of_byteLength_le hfront hline hge
    rw [List.append_assoc] at hrest
    exact ⟨front, rest, (List.append_cancel_left hrest).symm, rfl⟩
  · rintro ⟨front, rest, rfl, rfl⟩
    rw [← List.append_assoc] at hline
    exact isBoundary_of_isPrefix ((List.prefix_append _ _).trans hline)

end Text

variable {source front rest line : List Char} {before : List (List Char)} {error : LocatedFault} {label : String}

/-- A fault is shown on the line that its index is on, behind the characters in front of the index. -/
theorem ofError?_of_isOnLine (h : IsOnLine (splitLines source) error.position.index before (front ++ rest))
    (hindex : byteLength (before.flatten ++ front) = error.position.index) (label : String) :
    Diagnostic.ofError? source label error = some ⟨error, label, some
      { number := before.length + 1
        text := trimEnd ((front ++ rest).dropWhile Excerpt.isMargin)
        column := front.length - marginLength (front ++ rest) }⟩ := by
  have hoffset : error.position.index - byteLength before.flatten = byteLength front := by
    rw [← hindex, byteLength_append, Nat.add_sub_cancel_left]
  rw [Diagnostic.ofError?, h.lineAt?_eq, hoffset]
  dsimp only
  rw [Excerpt.ofLine?, takeBytes?_append]
  rfl

/-- A fault inside a character of its line is not shown. -/
theorem ofError?_of_not_isBoundary (h : IsOnLine (splitLines source) error.position.index before line)
    (hinside : ¬ IsBoundary error.position.index source) (label : String) :
    Diagnostic.ofError? source label error = none := by
  rw [Diagnostic.ofError?, h.lineAt?_eq]
  dsimp only
  rw [Excerpt.ofLine?, Option.map_eq_none_iff, Option.map_eq_none_iff]
  by_contra hfound
  obtain ⟨front, hfront⟩ := Option.ne_none_iff_exists'.1 hfound
  obtain ⟨rest, hrest⟩ := prefix_of_takeBytes? hfront
  refine hinside (h.isBoundary_iff.2 ⟨front, rest, hrest.symm, ?_⟩)
  rw [byteLength_append, byteLength_of_takeBytes? hfront]
  exact Nat.add_sub_cancel' h.bounds.1

/-- A fault beyond the source is shown without a line. -/
theorem ofError?_beyond (h : byteLength source < error.position.index) (label : String) :
    Diagnostic.ofError? source label error = some ⟨error, label, none⟩ := by
  rw [Diagnostic.ofError?, lineAt?_beyond h]

/-- The end of a text is a boundary. -/
theorem Text.isBoundary_byteLength (text : List Char) : IsBoundary (byteLength text) text :=
  isBoundary_of_isPrefix (List.prefix_refl text)

/-- A fault is not shown just where its index falls inside a character. -/
theorem ofError?_eq_none_iff : Diagnostic.ofError? source label error = none ↔
    error.position.index < byteLength source ∧ ¬ IsBoundary error.position.index source := by
  constructor
  · intro hnone
    have hle : error.position.index ≤ byteLength source := by
      by_contra hbeyond
      rw [ofError?_beyond (Nat.lt_of_not_le hbeyond)] at hnone
      cases hnone
    have hinside : ¬ IsBoundary error.position.index source := by
      intro hboundary
      obtain ⟨before, line, hline⟩ := exists_isOnLine hle
      obtain ⟨front, rest, rfl, hindex⟩ := hline.isBoundary_iff.1 hboundary
      rw [ofError?_of_isOnLine hline hindex] at hnone
      cases hnone
    refine ⟨Nat.lt_of_le_of_ne hle fun hend => hinside ?_, hinside⟩
    rw [hend]
    exact isBoundary_byteLength source
  · rintro ⟨hlt, hinside⟩
    obtain ⟨before, line, hline⟩ := exists_isOnLine hlt.le
    exact ofError?_of_not_isBoundary hline hinside label

/-- A fault beyond the source is printed to the end, without a line. -/
theorem print_beyond (h : byteLength source < error.position.index) (label : String) :
    Diagnostic.print source label error = .whole [Drawing.nameLine error, Drawing.placeLine label error] := by
  rw [Diagnostic.print, ofError?_beyond h, Drawing.nameLine_eq none, Drawing.placeLine_eq none]
  rfl

/-- A place on a line is in a column of the line. -/
theorem Text.IsOnLine.length_lt {lines : List (List Char)} {index limit : Nat} (h : IsOnLine lines index before line)
    (hline : line = front ++ rest) (hindex : byteLength (before.flatten ++ front) = index) (hlimit : 0 < limit)
    (hnarrow : ∀ line ∈ lines, lastColumn line < limit) : front.length < limit := by
  cases h with
  | byte hbyte =>
    have hcolumn := hnarrow line (hbyte.isPrefix.subset (by simp))
    -- the byte is in what stands behind the place
    have hrest : rest ≠ [] := by
      rintro rfl
      have hlt := hbyte.lt
      rw [← hindex, byteLength_append, hline, List.append_nil] at hlt
      exact lt_irrefl _ hlt
    have hpos := List.length_pos_of_ne_nil hrest
    rw [lastColumn, hline, List.length_append] at hcolumn
    split at hcolumn <;> omega
  | last hlines hopen hend =>
    have hcolumn := hnarrow line (by simp [hlines])
    rw [lastColumn, hopen, if_neg Bool.false_ne_true, hline, List.length_append] at hcolumn
    omega
  | behind hended hend =>
    rw [(List.append_eq_nil_iff.1 hline.symm).1]
    exact hlimit

/-- Where no line is too long for a caret, a fault is not printed to the end just where its index falls inside a
character. -/
theorem isWhole_print_eq_false_iff (hnarrow : ∀ line ∈ splitLines source, lastColumn line < Excerpt.maxPadding) :
    (Diagnostic.print source label error).isWhole = false ↔
      error.position.index < byteLength source ∧ ¬ IsBoundary error.position.index source := by
  rw [← @ofError?_eq_none_iff source error label]
  refine ⟨fun hbroken => ?_, isWhole_print_of_eq_none⟩
  by_contra hshown
  rcases Nat.lt_or_ge (byteLength source) error.position.index with hbeyond | hle
  · rw [print_beyond hbeyond] at hbroken
    cases hbroken
  · obtain ⟨before, line, hline⟩ := exists_isOnLine hle
    have hboundary : IsBoundary error.position.index source := by
      by_contra hinside
      exact hshown (ofError?_of_not_isBoundary hline hinside label)
    obtain ⟨front, rest, rfl, hindex⟩ := hline.isBoundary_iff.1 hboundary
    have hcolumn := hline.length_lt rfl hindex (by decide) hnarrow
    have hwhole := Drawing.print_eq_printout (ofError?_of_isOnLine hline hindex label)
    rw [hwhole, ← Bool.not_eq_true, Drawing.isWhole_printout] at hbroken
    exact hbroken (Nat.lt_of_le_of_lt (Nat.sub_le _ _) hcolumn)

/-- Whatever the fault and its position are, there is no diagnostic if the byte index falls inside a character of the
source, and there are two lines if it is beyond the source. Otherwise there are five, with the line that the index is
on, and in front of the caret stands a dash for each character in front of the index on that line that is not among
its first spaces and tabs. They are all printed, but for a caret with too many dashes. So if no line is too long, only
an index inside a character keeps a diagnostic from being printed to the end. -/
theorem diagnostic_of_any_place (source : List Char) (label : String) (error : LocatedFault) :
    (Diagnostic.ofError? source label error = none ↔
      error.position.index < byteLength source ∧ ¬ IsBoundary error.position.index source) ∧
    (byteLength source < error.position.index → ∃ diagnostic,
      Diagnostic.ofError? source label error = some diagnostic ∧
      diagnostic.render =
        String.join ([Drawing.nameLine error, Drawing.placeLine label error].map (· ++ "\n")) ∧
      Diagnostic.print source label error = .whole [Drawing.nameLine error, Drawing.placeLine label error]) ∧
    (error.position.index ≤ byteLength source → IsBoundary error.position.index source →
      ∃ before front rest diagnostic,
        IsOnLine (splitLines source) error.position.index before (front ++ rest) ∧
        byteLength (before.flatten ++ front) = error.position.index ∧
        Diagnostic.ofError? source label error = some diagnostic ∧
        diagnostic.render = String.join
          ((Drawing.atColumn label error (before.length + 1) (front ++ rest) front.length).lines.map
            (· ++ "\n")) ∧
        Diagnostic.print source label error =
          (Drawing.atColumn label error (before.length + 1) (front ++ rest) front.length).printout
            (front.length - marginLength (front ++ rest))) ∧
    ((∀ line ∈ splitLines source, lastColumn line < Excerpt.maxPadding) →
      ((Diagnostic.print source label error).isWhole = false ↔
        error.position.index < byteLength source ∧ ¬ IsBoundary error.position.index source)) := by
  refine ⟨ofError?_eq_none_iff, fun hbeyond => ⟨_, ofError?_beyond hbeyond label, ?_, print_beyond hbeyond label⟩,
    fun hle hboundary => ?_, isWhole_print_eq_false_iff⟩
  · rw [Diagnostic.render, Drawing.nameLine_eq none, Drawing.placeLine_eq none]
    rfl
  · obtain ⟨before, line, hline⟩ := exists_isOnLine hle
    obtain ⟨front, rest, rfl, hindex⟩ := hline.isBoundary_iff.1 hboundary
    have hshown := ofError?_of_isOnLine hline hindex label
    refine ⟨before, front, rest, _, hline, hindex, hshown, ?_, Drawing.print_eq_printout hshown⟩
    rw [Diagnostic.render, Drawing.lines_atColumn]

end Offside
