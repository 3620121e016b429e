import Offside.Proofs.LineLookup
import Offside.Proofs.Scan.Positions

/-!
# The lines that positions are in

A position counts lines while a text is gone over, character by character. A line view finds the line of a
byte index by cutting the text behind its line ends. The two agree on every cut of a text that is not inside
a pair of line end characters: the line found has the number that the position says, and it is cut behind as
many characters as the column says.

Behind the last line end of a text the line is empty, and so is the column. Cuts inside a pair are left
aside; no position of an analysis is one.
-/

namespace Offside

namespace Text

variable {c : Char} {text before after line : List Char} {lines : List (List Char)} {number index : Nat}
  {view : LineView}

/-! ### Lines -/

/-- The first line of a text, with its line end. -/
def firstLine (text : List Char) : List Char :=
  (splitLines text).headD []

/-- Any character but the first of a pair is a line of its own, or stands in front of the next line. -/
theorem splitLines_cons (hwhole : ¬ CutsPair [c] text) :
    splitLines (c :: text) =
      if isLineEnd c then [c] :: splitLines text else (c :: firstLine text) :: (splitLines text).tail := by
  rw [splitLines.eq_def]
  split
  case h_1 heq => cases heq
  case h_2 heq =>
    obtain ⟨rfl, rfl⟩ := List.cons.inj heq
    exact absurd ⟨rfl, rfl⟩ hwhole
  case h_3 heq =>
    obtain ⟨rfl, rfl⟩ := List.cons.inj heq
    split
    · rfl
    · rw [firstLine]
      cases splitLines text <;> rfl

/-- A text that is not empty has a first line. -/
theorem splitLines_eq_cons (h : text ≠ []) :
    splitLines text = firstLine text :: (splitLines text).tail := by
  cases hlines : splitLines text with
  | nil =>
    have hflat := (areLines_splitLines text).flatten_eq
    rw [hlines] at hflat
    exact absurd hflat.symm h
  | cons line lines => simp [firstLine, hlines]

/-- The first line of a text is as little empty as the text. -/
theorem firstLine_ne_nil (h : text ≠ []) : firstLine text ≠ [] := by
  refine (areLines_splitLines text).ne_nil _ ?_
  rw [splitLines_eq_cons h]
  exact List.mem_cons_self

/-- The first line is the front of the text. -/
theorem firstLine_prefix (text : List Char) : firstLine text <+: text := by
  by_cases h : text = []
  · subst h
    exact List.nil_prefix
  · have hflat := (areLines_splitLines text).flatten_eq
    rw [splitLines_eq_cons h, List.flatten_cons] at hflat
    exact ⟨_, hflat⟩

/-- The first line of a text opens with the first character of the text. -/
theorem exists_firstLine_cons (c : Char) (text : List Char) : ∃ rest, firstLine (c :: text) = c :: rest := by
  obtain ⟨d, rest, hline⟩ := List.exists_cons_of_ne_nil (firstLine_ne_nil (List.cons_ne_nil c text))
  have hprefix := firstLine_prefix (c :: text)
  rw [hline, List.cons_prefix_cons] at hprefix
  exact ⟨rest, by rw [hline, hprefix.1]⟩

/-! ### Line breaks in front of a cut -/

/-- A text without line ends has no line breaks, and is all on its last line. -/
theorem lineBreaks_eq_zero (h : text.any isLineEnd = false) : lineBreaks text = 0 ∧ openLine text = text := by
  constructor
  · fun_induction lineBreaks text with
    | case1 => rfl
    | case2 cs ih => cases h
    | case3 c cs hpair ih =>
      rw [List.any_cons, Bool.or_eq_false_iff] at h
      rw [ih h.2, h.1]
      rfl
  · rw [openLine, List.rtakeWhile_eq_self_iff]
    simpa using h

/-- A line end in front of a text leaves its last line as it is. -/
theorem openLine_cons_of_lineEnd (hend : isLineEnd c = true) (text : List Char) :
    openLine (c :: text) = openLine text := by
  by_cases h : text.any isLineEnd = true
  · rw [openLine_cons, if_pos h]
  · rw [openLine_cons, if_neg h, if_pos hend, (lineBreaks_eq_zero (Bool.not_eq_true _ ▸ h)).2]

/-- A text with a line end has a line break. -/
theorem lineBreaks_pos (h : text.any isLineEnd = true) : 0 < lineBreaks text := by
  fun_induction lineBreaks text with
  | case1 => cases h
  | case2 cs ih => exact Nat.succ_pos _
  | case3 c cs hpair ih =>
    rw [List.any_cons, Bool.or_eq_true] at h
    rcases h with hc | hcs
    · rw [if_pos hc]
      exact Nat.succ_pos _
    · exact Nat.add_pos_left (ih hcs) _

/-! ### Finding a cut -/

/-- Lines are numbered upwards. -/
theorem le_number_of_locate (h : locate number index lines = some view) : number ≤ view.number := by
  induction lines generalizing number index with
  | nil =>
    rw [locate] at h
    split at h <;> cases h
    exact le_rfl
  | cons line lines ih =>
    rw [locate] at h
    split at h
    · cases h
      exact le_rfl
    · exact (Nat.le_succ number).trans (ih h)

/-- What is found is the line with that number, unless it is the empty line behind the last line end. -/
theorem getElem?_of_locate (h : locate number index lines = some view) (hne : view.text ≠ []) :
    lines[view.number - number]? = some view.text := by
  induction lines generalizing number index with
  | nil =>
    rw [locate] at h
    split at h <;> cases h
    exact absurd rfl hne
  | cons line lines ih =>
    rw [locate] at h
    split at h
    · cases h
      simp
    · have hle := le_number_of_locate h
      have hsucc : view.number - number = view.number - (number + 1) + 1 := by omega
      rw [hsucc, List.getElem?_cons_succ]
      exact ih h

/-- One more character in front of a text is in front of its first line, and moves no place in the others. -/
theorem locate_splitLines_cons (hc : isLineEnd c = false)
    (h : locate number index (splitLines text) = some view) :
    locate number (c.utf8Size + index) (splitLines (c :: text)) =
      some (if view.number = number then ⟨number, c :: view.text, c.utf8Size + view.offset⟩ else view) := by
  have hwhole : ¬ CutsPair [c] text := by
    rintro ⟨hreturn, -⟩
    obtain rfl : c = '\r' := Option.some.inj hreturn
    cases hc
  rw [splitLines_cons hwhole, if_neg (by simp [hc])]
  by_cases hne : text = []
  · subst hne
    simp only [splitLines, locate] at h
    split at h <;> cases h
    rename_i hindex
    simp [hindex, locate, firstLine, splitLines, isEnded, hc]
  · rw [splitLines_eq_cons hne, locate] at h
    rw [locate, isEnded_cons (firstLine_ne_nil hne), byteLength_cons]
    by_cases hfirst : index < byteLength (firstLine text) ∨
        index = byteLength (firstLine text) ∧ ¬ isEnded (firstLine text) = true
    · rw [if_pos hfirst] at h
      cases h
      rw [if_pos (hfirst.imp (by omega) (.imp_left (by omega))), if_pos rfl]
    · rw [if_neg hfirst] at h
      have hlater := le_number_of_locate h
      have hindex : c.utf8Size + index - (c.utf8Size + byteLength (firstLine text)) =
          index - byteLength (firstLine text) := by omega
      rw [if_neg (fun hcons => hfirst (hcons.imp (by omega) (.imp_left (by omega)))),
        if_neg (by omega), hindex, h]

/-- A cut that is not inside a pair is found behind as many line breaks as stand in front of it, on the line
that is open there. -/
theorem locate_splitLines (number : Nat) (hwhole : ¬ CutsPair before after) :
    locate number (byteLength before) (splitLines (before ++ after)) =
      some ⟨number + lineBreaks before, openLine before ++ firstLine after, byteLength (openLine before)⟩ := by
  fun_induction lineBreaks before generalizing number with
  | case1 =>
    by_cases hne : after = []
    · subst hne
      rfl
    · rw [List.nil_append, splitLines_eq_cons hne]
      exact locate_cons_of_lt (byteLength_pos (firstLine_ne_nil hne))
  | case2 cs ih =>
    have hlines : splitLines ('\r' :: '\n' :: cs ++ after) = ['\r', '\n'] :: splitLines (cs ++ after) := by
      rw [List.cons_append, List.cons_append, splitLines]
    have hindex : byteLength ('\r' :: '\n' :: cs) = byteLength ['\r', '\n'] + byteLength cs :=
      byteLength_append ['\r', '\n'] cs
    rw [hlines, hindex, locate_cons_of_ended (by decide), openLine_cons_of_lineEnd rfl,
      openLine_cons_of_lineEnd rfl, ih (number + 1) fun hcut => hwhole ((hcut.cons '\n').cons '\r'),
      Nat.add_assoc, Nat.add_comm 1]
  | case3 c cs hpair ih =>
    have hrest : ¬ CutsPair cs after := fun hcut => hwhole (hcut.cons c)
    have hfirst : ¬ CutsPair [c] (cs ++ after) := by
      rintro ⟨hc, hhead⟩
      cases cs with
      | nil => exact hwhole ⟨hc, hhead⟩
      | cons d ds => exact hpair ds (Option.some.inj hc) (by rw [Option.some.inj hhead])
    by_cases hc : isLineEnd c = true
    · have hindex : byteLength (c :: cs) = byteLength [c] + byteLength cs := byteLength_append [c] cs
      rw [List.cons_append, splitLines_cons hfirst, if_pos hc, hindex,
        locate_cons_of_ended (by simpa [isEnded] using hc), openLine_cons_of_lineEnd hc,
        ih (number + 1) hrest, if_pos hc, Nat.add_assoc, Nat.add_comm 1]
    · rw [Bool.not_eq_true] at hc
      rw [List.cons_append, byteLength_cons, locate_splitLines_cons hc (ih number hrest), hc]
      by_cases hcs : cs.any isLineEnd = true
      · have hpos := lineBreaks_pos hcs
        simp [openLine_cons, hcs]
        omega
      · rw [Bool.not_eq_true] at hcs
        obtain ⟨hzero, hopen⟩ := lineBreaks_eq_zero hcs
        simp [openLine_cons, hcs, hc, hzero, hopen]

/-- What a view of a line says of a position: the line has its number, and it is cut behind as many characters
as the column says, in front of what stands in the text from the position on. -/
structure LineView.Shows (view : LineView) (p : Position) (source : List Char) : Prop where
  number_eq : view.number = p.line
  cut : ∃ front rest, view.text = front ++ rest ∧ takeBytes? view.offset view.text = some front ∧
    front.length = p.column ∧ ∃ left, dropBytes? p.index source = some left ∧ rest <+: left

/-- The line of the position of a cut has its number, and what stands in front of the cut on the line. -/
theorem lineAt?_of_marksCut {p : Position} (h : p.MarksCut before after) :
    lineAt? (before ++ after) p.index =
      some ⟨p.line, openLine before ++ firstLine after, byteLength (openLine before)⟩ := by
  rw [lineAt?, h.index_eq, h.line_eq]
  exact locate_splitLines 1 h.whole

/-- Every place of a text is shown by the line that is found for its index. -/
theorem exists_lineAt?_of_isPlaceIn {p : Position} {source : List Char} (h : p.IsPlaceIn source) :
    ∃ view, lineAt? source p.index = some view ∧ view.Shows p source := by
  obtain ⟨before, after, rfl, hmark⟩ := h
  have hleft : dropBytes? p.index (before ++ after) = some after := by
    rw [hmark.index_eq]
    exact dropBytes?_append before after
  exact ⟨_, lineAt?_of_marksCut hmark, rfl, openLine before, firstLine after, rfl, takeBytes?_append _ _,
    hmark.column_eq.symm, after, hleft, firstLine_prefix after⟩

end Text

open Text

/-- The positions of an analysis: where its tokens start and stop, and where its faults are. -/
def positionsOf (source : List Char) : List Position :=
  (tokensOf source).flatMap (fun token => [token.start, token.stop]) ++
    (faultsOf source).map LocatedFault.position

/-- The positions of an analysis are places of its text. -/
theorem isPlaceIn_of_mem_positionsOf {source : List Char} {p : Position} (h : p ∈ positionsOf source) :
    p.IsPlaceIn source := by
  rcases List.mem_append.1 h with hmem | hmem
  · obtain ⟨token, htoken, hends⟩ := List.mem_flatMap.1 hmem
    have hplaced := isPlacedIn_of_mem_tokensOf htoken
    rcases List.mem_pair.1 hends with rfl | rfl
    · exact hplaced.start_isPlace
    · exact hplaced.stop_isPlace
  · obtain ⟨error, herror, rfl⟩ := List.mem_map.1 hmem
    exact isPlaceIn_of_mem_faultsOf herror

/-- For every position of an analysis there is a line, which has the number of the position and is cut at its
column. -/
theorem lineAt?_shows_position {source : List Char} {p : Position} (h : p ∈ positionsOf source) :
    ∃ view, lineAt? source p.index = some view ∧ view.Shows p source :=
  exists_lineAt?_of_isPlaceIn (isPlaceIn_of_mem_positionsOf h)

/-- Behind a character of two bytes, on a line that starts inside a block, behind a literal over two lines and
three sorts of line ends. -/
theorem lineAt?_shows_position_behind_block :
    ⟨4, 5, 18⟩ ∈ positionsOf "x\r\n'\\\n' \"\"\"\r\"\"\" é\n".toList ∧
      ∃ view, lineAt? "x\r\n'\\\n' \"\"\"\r\"\"\" é\n".toList 18 = some view ∧
        view.Shows ⟨4, 5, 18⟩ "x\r\n'\\\n' \"\"\"\r\"\"\" é\n".toList := by
  have h : ⟨4, 5, 18⟩ ∈ positionsOf "x\r\n'\\\n' \"\"\"\r\"\"\" é\n".toList := by
    rw [positionsOf, faultsOf_eq_runFor, tokensOf_eq_runFor]
    decide +kernel
  exact ⟨h, lineAt?_shows_position h⟩

end Offside
