import Mathlib.Data.List.DropRight
import Mathlib.Order.Bounds.Basic
import Offside.Layout

/-!
# Tab stops

The width of a margin is the column it ends in. A form feed starts a new page, so only what stands behind the last one
counts, and there a tab stands for the spaces up to the next tab stop: writing these spaces in its place gives a
margin in which every character is one column.

So a tab and its spaces can be exchanged wherever a margin has them. What a tab skips over is the room up to its stop,
and spaces that stand in this room, between one stop and a tab to the next, are lost in it.
-/

namespace Offside

/-! ### Stops -/

/-- The number of spaces from a column up to the next tab stop. -/
def spacesToStop (column : Nat) : Nat :=
  tabWidth - column % tabWidth

/-- They end in the first multiple of the tab width behind the column. -/
theorem isLeast_add_spacesToStop (column : Nat) :
    IsLeast {stop | column < stop ∧ tabWidth ∣ stop} (column + spacesToStop column) := by
  have hmod : column % tabWidth < tabWidth := Nat.mod_lt column (by decide)
  have hdiv := Nat.div_add_mod column tabWidth
  refine ⟨⟨by rw [spacesToStop]; omega, ?_⟩, ?_⟩
  · refine ⟨column / tabWidth + 1, ?_⟩
    rw [spacesToStop, Nat.mul_succ]
    omega
  · rintro stop ⟨hbehind, quotient, rfl⟩
    have hquotient : column / tabWidth + 1 ≤ quotient := Nat.div_lt_of_lt_mul hbehind
    have hstop := Nat.mul_le_mul_left tabWidth hquotient
    rw [Nat.mul_succ] at hstop
    rw [spacesToStop]
    omega

/-- A tab widens a margin by the spaces up to the next stop. -/
theorem widen_tab (width : Nat) : widen width '\t' = width + spacesToStop width := by
  have hmod : width % tabWidth < tabWidth := Nat.mod_lt width (by decide)
  have hdiv := Nat.div_add_mod' width tabWidth
  simp only [widen, spacesToStop, beq_self_eq_true, if_true, Nat.succ_mul]
  omega

/-- Fewer spaces than a tab is wide do not reach the next stop, so a tab ends in the same one behind them. -/
theorem widen_add_tab {width count : Nat} (hstop : tabWidth ∣ width) (hroom : count < tabWidth) :
    widen (width + count) '\t' = widen width '\t' := by
  obtain ⟨tabs, rfl⟩ := hstop
  have hquotient : (tabWidth * tabs + count) / tabWidth = tabWidth * tabs / tabWidth := by
    rw [Nat.mul_add_div (by decide), Nat.div_eq_of_lt hroom, Nat.mul_div_cancel_left tabs (by decide), Nat.add_zero]
  exact congrArg (fun quotient => (quotient + 1) * tabWidth) hquotient

/-- Any character but a form feed widens. -/
theorem lt_widen {c : Char} (hfeed : c ≠ '\x0c') (width : Nat) : width < widen width c := by
  by_cases htab : c = '\t'
  · have hbehind := (isLeast_add_spacesToStop width).1.1
    rwa [htab, widen_tab]
  · rw [widen_of_ne htab hfeed]
    exact Nat.lt_succ_self width

/-! ### Expansion -/

/-- A text that starts in a column, with spaces up to the next stop in place of each tab. -/
def expandFrom (column : Nat) : List Char → List Char
  | [] => []
  | c :: cs =>
    if c = '\t' then
      List.replicate (spacesToStop column) ' ' ++ expandFrom (column + spacesToStop column) cs
    else c :: expandFrom (column + 1) cs

/-- A text with spaces in place of its tabs. -/
def expandTabs (text : List Char) : List Char :=
  expandFrom 0 text

/-- Without form feeds, a margin is widened by the length of its expansion. -/
theorem foldl_widen_eq {margin : List Char} (h : '\x0c' ∉ margin) (column : Nat) :
    margin.foldl widen column = column + (expandFrom column margin).length := by
  induction margin generalizing column with
  | nil => rfl
  | cons c cs ih =>
    obtain ⟨hc, hcs⟩ := not_or.1 (mt List.mem_cons.2 h)
    by_cases htab : c = '\t'
    · rw [List.foldl_cons, htab, widen_tab, ih hcs, expandFrom, if_pos rfl, List.length_append,
        List.length_replicate, Nat.add_assoc]
    · rw [List.foldl_cons, widen_of_ne htab (Ne.symm hc), ih hcs, expandFrom, if_neg htab, List.length_cons]
      omega

/-- Without form feeds, the width of a margin is the length of its expansion. -/
theorem indentWidth_eq_length {margin : List Char} (h : '\x0c' ∉ margin) :
    indentWidth margin = (expandTabs margin).length := by
  rw [indentWidth, foldl_widen_eq h, expandTabs, Nat.zero_add]

/-! ### Pages -/

/-- The part of a text behind its last form feed. -/
def lastPage (text : List Char) : List Char :=
  text.rtakeWhile (· != '\x0c')

/-- The column that a text ends in. -/
def columnBehind (text : List Char) : Nat :=
  (expandTabs (lastPage text)).length

/-- What stands in front of a form feed does not count. -/
theorem indentWidth_formFeed (before after : List Char) :
    indentWidth (before ++ '\x0c' :: after) = indentWidth after := by
  rw [indentWidth_append, List.foldl_cons]
  rfl

/-- The width of a margin is the column it ends in. -/
theorem indentWidth_eq_columnBehind (margin : List Char) : indentWidth margin = columnBehind margin := by
  have hpage : '\x0c' ∉ lastPage margin := fun hmem => by simpa using List.mem_rtakeWhile_imp hmem
  have hsplit : margin.rdropWhile (· != '\x0c') ++ lastPage margin = margin := List.rdropWhile_append_rtakeWhile
  rw [columnBehind, ← indentWidth_eq_length hpage]
  rcases List.eq_nil_or_concat' (margin.rdropWhile (· != '\x0c')) with hnil | ⟨before, c, hconcat⟩
  · rw [hnil, List.nil_append] at hsplit
    rw [hsplit]
  · have hne : margin.rdropWhile (· != '\x0c') ≠ [] := by simp [hconcat]
    have hfeed : c = '\x0c' := by simpa [hconcat] using List.rdropWhile_last_not _ _ hne
    rw [hconcat, hfeed, List.append_assoc, List.singleton_append] at hsplit
    rw [← indentWidth_formFeed before (lastPage margin), hsplit]

/-! ### Margins of one width -/

/-- Any character but a form feed makes a margin wider. -/
theorem indentWidth_lt_concat (margin : List Char) {c : Char} (hfeed : c ≠ '\x0c') :
    indentWidth margin < indentWidth (margin ++ [c]) := by
  rw [indentWidth_append]
  exact lt_widen hfeed _

/-- A tab can be written as spaces. -/
theorem indentWidth_tab (before after : List Char) :
    indentWidth (before ++ List.replicate (spacesToStop (columnBehind before)) ' ' ++ after) =
      indentWidth (before ++ '\t' :: after) := by
  rw [indentWidth_append, indentWidth_append, indentWidth_append, foldl_widen_spaces, List.foldl_cons, widen_tab,
    indentWidth_eq_columnBehind]

/-- Whether a text ends where a tab would: it is empty, or ends in a tab or in a form feed. -/
def EndsAtStop (text : List Char) : Prop :=
  ∀ c, text.getLast? = some c → c = '\t' ∨ c = '\x0c'

/-- Such a text is as wide as some tabs. -/
theorem EndsAtStop.dvd_indentWidth {text : List Char} (h : EndsAtStop text) : tabWidth ∣ indentWidth text := by
  rcases List.eq_nil_or_concat' text with rfl | ⟨before, c, rfl⟩
  · exact Nat.dvd_zero tabWidth
  · rw [indentWidth_append]
    rcases h c List.getLast?_concat with rfl | rfl
    · exact Nat.dvd_mul_left tabWidth _
    · exact Nat.dvd_zero tabWidth

/-- Fewer spaces than a tab is wide are lost between a stop and a tab. -/
theorem EndsAtStop.indentWidth_spaces_tab {before : List Char} (h : EndsAtStop before) {count : Nat}
    (hroom : count < tabWidth) (after : List Char) :
    indentWidth (before ++ List.replicate count ' ' ++ '\t' :: after) = indentWidth (before ++ '\t' :: after) := by
  rw [indentWidth_append, indentWidth_append, indentWidth_append, foldl_widen_spaces, List.foldl_cons,
    List.foldl_cons, widen_add_tab h.dvd_indentWidth hroom]

/-- The width of a margin is the column that its last page ends in: what stands in front of a form feed does not count,
and without form feeds it is the length of the text that has spaces up to the next stop in place of each tab. So a
tab can be written as these spaces anywhere, a space or tab at the end makes any margin wider, and of the spaces
between a stop and a tab, as long as they are fewer than a tab is wide, any number can be left out. -/
theorem indentWidth_counts_columns :
    (∀ before after, indentWidth (before ++ '\x0c' :: after) = indentWidth after) ∧
    (∀ margin, '\x0c' ∉ margin → indentWidth margin = (expandTabs margin).length) ∧
    (∀ column, IsLeast {stop | column < stop ∧ tabWidth ∣ stop} (column + spacesToStop column)) ∧
    (∀ before after, indentWidth (before ++ List.replicate (spacesToStop (columnBehind before)) ' ' ++ after) =
      indentWidth (before ++ '\t' :: after)) ∧
    (∀ margin, indentWidth margin < indentWidth (margin ++ [' ']) ∧
      indentWidth margin < indentWidth (margin ++ ['\t'])) ∧
    ∀ before after dropped kept, EndsAtStop before → dropped + kept < tabWidth →
      indentWidth (before ++ List.replicate kept ' ' ++ '\t' :: after) =
        indentWidth (before ++ List.replicate (dropped + kept) ' ' ++ '\t' :: after) := by
  refine ⟨indentWidth_formFeed, fun margin => indentWidth_eq_length, isLeast_add_spacesToStop, indentWidth_tab,
    fun margin => ⟨indentWidth_lt_concat margin (by decide), indentWidth_lt_concat margin (by decide)⟩, ?_⟩
  intro before after dropped kept hstop hroom
  rw [hstop.indentWidth_spaces_tab hroom, hstop.indentWidth_spaces_tab (by omega)]

example : expandTabs " \t  \t ".toList = List.replicate 17 ' ' ∧ indentWidth "\t\x0c \t  \t ".toList = 17 := by decide

end Offside
