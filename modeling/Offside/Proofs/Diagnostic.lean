import Offside.Diagnostic
import Offside.Proofs.Lines
import Offside.Proofs.Scan.Faults

/-!
# Faults in their lines

A drawing of a fault is five lines of text: the name of the fault with its tip, its place, a bar, the line of the
source that it is in, and a caret. The line is shown without the spaces and tabs at its start, and the caret
stands under the character at fault.

No fault of an analysis is at a blank, so its column is never among the spaces and tabs that are left out, and the
caret can always be moved along with the text. What is left out at the end of the line may reach back to the
character at fault, so that character is looked for in the line before its end is cut off.

A drawing is printed to the end unless the caret is too far to the right, and then it lacks the caret.
-/

namespace Offside

open Text

/-- The number of spaces and tabs at the start of a line. -/
def marginLength (line : List Char) : Nat :=
  (line.takeWhile Excerpt.isMargin).length

/-- What is drawn of a fault. The text and the caret are kept apart from what stands in front of them. -/
structure Drawing where
  headline : String
  place : String
  bar : List Char
  /-- What stands in front of the line of the source. -/
  gutter : List Char
  /-- What is shown of the line. -/
  shown : List Char
  /-- What stands in front of the caret. -/
  mark : List Char

namespace Drawing

/-- The five lines of a drawing. -/
def lines (drawing : Drawing) : List String :=
  [drawing.headline, drawing.place, String.ofList drawing.bar, String.ofList (drawing.gutter ++ drawing.shown),
    String.ofList (drawing.mark ++ ['^'])]

/-- The line that names a fault, with its tip in parentheses. -/
def nameLine (error : LocatedFault) : String :=
  "Error: " ++ error.fault.name ++ error.fault.tip?.elim "" fun tip => " (" ++ tip ++ ")"

/-- The line that says where a fault is, as its position has it. -/
def placeLine (label : String) (error : LocatedFault) : String :=
  "-> " ++ label ++ ":" ++ toString error.position.line ++ ":" ++ toString error.position.column

/-- The drawing of a fault in the line of a number, with the caret in a column of that line. Number and column need
not be those that the position of the fault has. -/
def atColumn (label : String) (error : LocatedFault) (number : Nat) (line : List Char) (column : Nat) : Drawing :=
  let bar := List.replicate ((toString number).length + 1) ' ' ++ ['|']
  { headline := nameLine error
    place := placeLine label error
    bar
    gutter := (toString number).toList ++ [' ', '|', ' ']
    shown := trimEnd (line.drop (marginLength line))
    mark := bar ++ ' ' :: List.replicate (column - marginLength line) '-' }

/-- The drawing of a fault in a line, with the number and the column that its position has. -/
def ofLine (label : String) (error : LocatedFault) (line : List Char) : Drawing :=
  atColumn label error error.position.line line error.position.column

/-- What is printed of a drawing that has a number of dashes in front of its caret. -/
def printout (drawing : Drawing) (dashes : Nat) : Printout :=
  if dashes < Excerpt.maxPadding then .whole drawing.lines else .cutOff (drawing.lines.take 4)

/-- The caret of a drawing stands under a character of a source line, which is the character at fault. -/
structure PointsAt (drawing : Drawing) (source : List Char) (position : Position) (line : List Char) :
    Prop where
  /-- The line is the one that the position counts. -/
  line_eq : ∃ number, position.line = number + 1 ∧ (splitLines source)[number]? = some line
  /-- What is shown of the line takes up one line. -/
  unbroken : ∀ c ∈ drawing.shown, isLineEnd c = false
  /-- The column is not among the spaces and tabs that are left out. -/
  margin_le : marginLength line ≤ position.column
  /-- The caret is as far behind the start of the shown line as the column is behind the margin. -/
  aligned : drawing.mark.length = drawing.gutter.length + (position.column - marginLength line)
  /-- The character there is the one at the byte index of the position. -/
  character : ∃ c rest, dropBytes? position.index source = some (c :: rest) ∧
    (line.drop (marginLength line))[position.column - marginLength line]? = some c

end Drawing

/-- The last column of a line that something can be in. The end of a line is in a column of its own, and so is the
place behind a line without an end. -/
def lastColumn (line : List Char) : Nat :=
  if isEnded line then line.length - 1 else line.length

/-- A fault is too far to the right, on the line that its position counts, for a caret. -/
def LocatedFault.IsOutOfReach (error : LocatedFault) (source : List Char) : Prop :=
  ∃ number line, error.position.line = number + 1 ∧ (splitLines source)[number]? = some line ∧
    Excerpt.maxPadding ≤ error.position.column - marginLength line

/-! ### Margins and ends of lines -/

/-- A line without its margin is what stands behind the margin. -/
theorem drop_marginLength (line : List Char) :
    line.drop (marginLength line) = line.dropWhile Excerpt.isMargin := by
  have hsplit := List.takeWhile_append_dropWhile (p := Excerpt.isMargin) (l := line)
  calc line.drop (marginLength line)
      = (line.takeWhile Excerpt.isMargin ++ line.dropWhile Excerpt.isMargin).drop (marginLength line) := by
        rw [hsplit]
    _ = line.dropWhile Excerpt.isMargin := List.drop_left

/-- A margin does not reach beyond a character that is no space and no tab. -/
theorem marginLength_append_le {c : Char} (hc : Excerpt.isMargin c = false) (front rest : List Char) :
    marginLength (front ++ c :: rest) ≤ front.length := by
  rw [marginLength, List.takeWhile_append]
  split
  · simp [hc]
  · exact (List.takeWhile_prefix _).length_le

/-- Spaces and tabs are blanks. -/
theorem isMargin_eq_false_of_isBlank {c : Char} (h : isBlank c = false) : Excerpt.isMargin c = false := by
  rw [isBlank, Bool.or_eq_false_iff] at h
  exact h.1

/-- Line ends are white space. -/
theorem isWhiteSpace_of_isLineEnd {c : Char} (h : isLineEnd c = true) : isWhiteSpace c = true := by
  rw [isLineEnd, Bool.or_eq_true, beq_iff_eq, beq_iff_eq] at h
  rcases h with rfl | rfl <;> decide

/-- What is shown of a line of a text has no line end in it. -/
theorem isLineEnd_of_mem_trimEnd {text line : List Char} (hline : line ∈ splitLines text) (count : Nat) :
    ∀ c ∈ trimEnd (line.drop count), isLineEnd c = false := by
  obtain ⟨body, ending, rfl, hbody, hending⟩ := exists_of_mem_splitLines hline
  intro c hc
  have hwhite : ∀ c ∈ (ending.drop (count - body.length)).reverse, isWhiteSpace c = true := fun c hc =>
    isWhiteSpace_of_isLineEnd (hending c (List.mem_of_mem_drop (List.mem_reverse.1 hc)))
  rw [trimEnd, List.drop_append, List.reverse_append, List.dropWhile_append_of_pos hwhite,
    List.mem_reverse] at hc
  have hmem := (List.dropWhile_sublist _).subset hc
  exact hbody c (List.mem_of_mem_drop (List.mem_reverse.1 hmem))

/-- A character that is no line end is in a column in front of the last one. -/
theorem length_lt_lastColumn {c : Char} (hc : isLineEnd c = false) (front rest : List Char) :
    front.length < lastColumn (front ++ c :: rest) := by
  rw [lastColumn, List.length_append, List.length_cons]
  split
  · rename_i hended
    have hrest : rest ≠ [] := by
      rintro rfl
      simp [isEnded, hc] at hended
    have hpos := List.length_pos_of_ne_nil hrest
    omega
  · omega

/-- A column that a caret can be padded to is within reach. -/
theorem not_isOutOfReach_of_lt {error : LocatedFault} {source : List Char}
    (h : error.position.column < Excerpt.maxPadding) : ¬ error.IsOutOfReach source := by
  rintro ⟨number, line, -, -, hfar⟩
  omega

/-! ### Diagnostics of places -/

/-- A fault at a cut of the source is shown on the line that is cut, its column moved by the margin. -/
theorem ofError?_of_marksCut {before after : List Char} {error : LocatedFault}
    (h : error.position.MarksCut before after) (label : String) :
    Diagnostic.ofError? (before ++ after) label error = some ⟨error, label, some
      { number := error.position.line
        text := trimEnd ((openLine before ++ firstLine after).dropWhile Excerpt.isMargin)
        column := error.position.column - marginLength (openLine before ++ firstLine after) }⟩ := by
  rw [Diagnostic.ofError?, lineAt?_of_marksCut h, h.column_eq]
  dsimp only
  rw [Excerpt.ofLine?, takeBytes?_append]
  rfl

/-- The line that the position of a cut counts is the one that is cut. -/
theorem getElem?_of_marksCut {before after : List Char} {p : Position} (h : p.MarksCut before after)
    (hne : after ≠ []) : ∃ number, p.line = number + 1 ∧
      (splitLines (before ++ after))[number]? = some (openLine before ++ firstLine after) := by
  refine ⟨p.line - 1, ?_, getElem?_of_locate (lineAt?_of_marksCut h) ?_⟩
  · rw [h.line_eq]
    omega
  · exact List.append_ne_nil_of_right_ne_nil _ (firstLine_ne_nil hne)

/-- Four of the five lines of a diagnostic stand above the mark. -/
theorem unmarked_eq {source : List Char} {label : String} {error : LocatedFault} {excerpt : Excerpt}
    (h : Diagnostic.ofError? source label error = some ⟨error, label, some excerpt⟩) :
    Diagnostic.unmarked source label error = (Diagnostic.lines ⟨error, label, some excerpt⟩).take 4 := by
  rw [Diagnostic.ofError?] at h
  rw [Diagnostic.unmarked]
  cases hview : lineAt? source error.position.index with
  | none => simp [hview] at h
  | some view =>
    simp only [hview, Option.map_eq_some_iff] at h
    obtain ⟨_, hexcerpt, h⟩ := h
    cases h
    obtain ⟨hnumber, htext⟩ := Excerpt.eq_of_ofLine? hexcerpt
    dsimp only
    rw [← hnumber, ← htext]
    rfl

/-- A diagnostic with a line is printed to the end if its mark can be padded, and up to the mark otherwise. -/
theorem print_of_excerpt {source : List Char} {label : String} {error : LocatedFault} {excerpt : Excerpt}
    (h : Diagnostic.ofError? source label error = some ⟨error, label, some excerpt⟩) :
    Diagnostic.print source label error =
      if excerpt.column < Excerpt.maxPadding then .whole (Diagnostic.lines ⟨error, label, some excerpt⟩)
      else .cutOff ((Diagnostic.lines ⟨error, label, some excerpt⟩).take 4) := by
  rw [Diagnostic.print, h, unmarked_eq h]
  exact if_congr Excerpt.fits_iff rfl rfl

/-- A fault without a diagnostic is not printed to the end. -/
theorem isWhole_print_of_eq_none {source : List Char} {label : String} {error : LocatedFault}
    (h : Diagnostic.ofError? source label error = none) :
    (Diagnostic.print source label error).isWhole = false := by
  rw [Diagnostic.print, h]
  rfl

example : Diagnostic.print "é".toList "a.py" ⟨.unrecognisedCharacter 'é', ⟨1, 0, 1⟩⟩ =
    .cutOff ["Error: UnrecognisedCharacter", "-> a.py:1:0", "  |", "1 | é"] := by decide +kernel

/-! ### Lines of drawings -/

namespace Drawing

variable {label : String} {error : LocatedFault} {line : List Char} {number column : Nat}

/-- The tip of a fault stands in parentheses behind its name. -/
theorem nameLine_eq (excerpt : Option Excerpt) : nameLine error = Diagnostic.headline ⟨error, label, excerpt⟩ := by
  rw [Diagnostic.headline, nameLine]
  cases error.fault.tip? <;> rfl

/-- The place of a fault is the name of its source, its line and its column. -/
theorem placeLine_eq (excerpt : Option Excerpt) :
    placeLine label error = Diagnostic.place ⟨error, label, excerpt⟩ := by
  simp only [Diagnostic.place, placeLine, ← String.append_assoc]
  rfl

/-- The bar is set in behind the number of the line. -/
theorem bar_atColumn :
    String.ofList (atColumn label error number line column).bar = Excerpt.bar number := by
  have hend : String.ofList ([' '] ++ ['|']) = " |" := rfl
  rw [Excerpt.bar, atColumn, List.replicate_succ', List.append_assoc, String.ofList_append, hend]

/-- The line of the source stands behind its number. -/
theorem gutter_append_shown_atColumn :
    String.ofList ((atColumn label error number line column).gutter ++
        (atColumn label error number line column).shown) =
      toString number ++ toString " | " ++ String.ofList (trimEnd (line.dropWhile Excerpt.isMargin)) := by
  have hgutter : String.ofList [' ', '|', ' '] = toString " | " := rfl
  rw [atColumn, drop_marginLength, String.ofList_append, String.ofList_append, String.ofList_toList, hgutter]

/-- The caret stands behind the bar and the dashes. -/
theorem mark_append_caret_atColumn :
    String.ofList ((atColumn label error number line column).mark ++ ['^']) =
      String.ofList (atColumn label error number line column).bar ++ " " ++
        String.ofList (List.replicate (column - marginLength line) '-') ++ "^" := by
  have hspace : String.singleton ' ' = " " := rfl
  have hcaret : String.ofList ['^'] = "^" := rfl
  have hmark : (atColumn label error number line column).mark =
      (atColumn label error number line column).bar ++ ' ' :: List.replicate (column - marginLength line) '-' := rfl
  rw [hmark, String.ofList_append, String.ofList_append, String.ofList_cons, hspace, hcaret,
    ← String.append_assoc]

/-- The lines of a drawing are those of the diagnostic. -/
theorem lines_atColumn : (atColumn label error number line column).lines =
    Diagnostic.lines ⟨error, label, some
      { number
        text := trimEnd (line.dropWhile Excerpt.isMargin)
        column := column - marginLength line }⟩ := by
  have hname : (atColumn label error number line column).headline = nameLine error := rfl
  have hplace : (atColumn label error number line column).place = placeLine label error := rfl
  rw [lines, hname, nameLine_eq, hplace, placeLine_eq, gutter_append_shown_atColumn, mark_append_caret_atColumn,
    bar_atColumn]
  rfl

/-- A drawing is printed to the end if its caret has not too many dashes in front of it. -/
theorem isWhole_printout (drawing : Drawing) (dashes : Nat) :
    (drawing.printout dashes).isWhole = true ↔ dashes < Excerpt.maxPadding := by
  rw [printout]
  split
  · exact iff_of_true rfl ‹_›
  · exact iff_of_false Bool.false_ne_true ‹_›

/-- What is printed of a diagnostic is what is printed of its drawing. -/
theorem print_eq_printout {source : List Char}
    (h : Diagnostic.ofError? source label error = some ⟨error, label, some
      { number
        text := trimEnd (line.dropWhile Excerpt.isMargin)
        column := column - marginLength line }⟩) :
    Diagnostic.print source label error =
      (atColumn label error number line column).printout (column - marginLength line) := by
  rw [print_of_excerpt h, printout, lines_atColumn]

end Drawing

/-- A fault of an analysis is printed to the end unless it is out of reach. -/
theorem isWhole_print_iff {source : List Char} {error : LocatedFault} (h : error ∈ faultsOf source)
    (label : String) : (Diagnostic.print source label error).isWhole = true ↔ ¬ error.IsOutOfReach source := by
  obtain ⟨before, c, after, rfl, hmark, -, -⟩ := (isFoundIn_of_mem_faultsOf h).exists_char
  obtain ⟨number, hcount, hnumber⟩ := getElem?_of_marksCut hmark (List.cons_ne_nil c after)
  have hreach : error.IsOutOfReach (before ++ c :: after) ↔
      Excerpt.maxPadding ≤ error.position.column - marginLength (openLine before ++ firstLine (c :: after)) := by
    refine ⟨?_, fun hfar => ⟨number, _, hcount, hnumber, hfar⟩⟩
    rintro ⟨number', line, hcount', hnumber', hfar⟩
    obtain rfl : number' = number := by omega
    obtain rfl := Option.some.inj (hnumber'.symm.trans hnumber)
    exact hfar
  rw [Drawing.print_eq_printout (ofError?_of_marksCut hmark label), Drawing.isWhole_printout, hreach, Nat.not_le]

/-- Every fault of an analysis is drawn in five lines, and the caret stands under the character at fault, on the
line and in the column that the position of the fault says. The column is in front of the last one of the line, and
all five lines are printed unless 65535 columns or more are shown in front of it. Then the caret is missing. -/
theorem faults_drawn_in_lines {source : List Char} {error : LocatedFault} (h : error ∈ faultsOf source)
    (label : String) :
    ∃ diagnostic line, Diagnostic.ofError? source label error = some diagnostic ∧
      diagnostic.render = String.join ((Drawing.ofLine label error line).lines.map (· ++ "\n")) ∧
      (Drawing.ofLine label error line).PointsAt source error.position line ∧
      error.position.column < lastColumn line ∧
      Diagnostic.print source label error =
        (Drawing.ofLine label error line).printout (error.position.column - marginLength line) := by
  obtain ⟨before, c, after, rfl, hmark, hblank, hend⟩ := (isFoundIn_of_mem_faultsOf h).exists_char
  obtain ⟨rest, hfirst⟩ := exists_firstLine_cons c after
  obtain ⟨number, hcount, hnumber⟩ := getElem?_of_marksCut hmark (List.cons_ne_nil c after)
  have hshown := ofError?_of_marksCut hmark label
  rw [hfirst] at hnumber hshown
  have hmargin : marginLength (openLine before ++ c :: rest) ≤ error.position.column := by
    rw [hmark.column_eq]
    exact marginLength_append_le (isMargin_eq_false_of_isBlank hblank) _ _
  refine ⟨_, openLine before ++ c :: rest, hshown, ?_, ⟨?_, ?_, hmargin, ?_, c, after, ?_, ?_⟩, ?_, ?_⟩
  · rw [Diagnostic.render, Drawing.ofLine, Drawing.lines_atColumn]
  · exact ⟨number, hcount, hnumber⟩
  · exact isLineEnd_of_mem_trimEnd (List.mem_of_getElem? hnumber) _
  · simp only [Drawing.ofLine, Drawing.atColumn, List.length_append, List.length_cons, List.length_nil,
      List.length_replicate, String.length_toList]
    omega
  · rw [hmark.index_eq]
    exact dropBytes?_append before (c :: after)
  · rw [List.getElem?_drop, Nat.add_sub_cancel' hmargin, hmark.column_eq, List.getElem?_append_right le_rfl]
    simp
  · rw [hmark.column_eq]
    exact length_lt_lastColumn hend _ _
  · exact Drawing.print_eq_printout hshown

/-- A character that is cut off from the end of its line, behind a tab and a literal of four characters. -/
theorem faults_drawn_in_lines_of_no_break_space :
    ⟨.unrecognisedCharacter '\u00a0', ⟨2, 5, 9⟩⟩ ∈ faultsOf "x\r\n\t'ü' \u00a0\r\n".toList ∧
      ∃ diagnostic line, Diagnostic.ofError? "x\r\n\t'ü' \u00a0\r\n".toList "a.py"
          ⟨.unrecognisedCharacter '\u00a0', ⟨2, 5, 9⟩⟩ = some diagnostic ∧
        diagnostic.render = String.join ((Drawing.ofLine "a.py"
          ⟨.unrecognisedCharacter '\u00a0', ⟨2, 5, 9⟩⟩ line).lines.map (· ++ "\n")) ∧
        (Drawing.ofLine "a.py" ⟨.unrecognisedCharacter '\u00a0', ⟨2, 5, 9⟩⟩ line).PointsAt
          "x\r\n\t'ü' \u00a0\r\n".toList ⟨2, 5, 9⟩ line ∧
        5 < lastColumn line ∧
        Diagnostic.print "x\r\n\t'ü' \u00a0\r\n".toList "a.py" ⟨.unrecognisedCharacter '\u00a0', ⟨2, 5, 9⟩⟩ =
          (Drawing.ofLine "a.py" ⟨.unrecognisedCharacter '\u00a0', ⟨2, 5, 9⟩⟩ line).printout
            (5 - marginLength line) := by
  have h : ⟨.unrecognisedCharacter '\u00a0', ⟨2, 5, 9⟩⟩ ∈ faultsOf "x\r\n\t'ü' \u00a0\r\n".toList := by
    rw [faultsOf_eq_runFor]
    decide +kernel
  exact ⟨h, faults_drawn_in_lines h "a.py"⟩

end Offside
