import Mathlib.Tactic.ByContra
import Offside.Proofs.Text
import Offside.Text.Lines

/-!
# Finding the line of a byte

A text has its lines in one way only: pieces that are not empty, join to the text, have a line end at their end and
nowhere else, all have one but for the last, and split no pair of line end characters. Cutting the text behind its
line ends gives them.

Every byte of the text is in exactly one line, and looking up its index finds this line, whether the index falls
between two characters or inside one. The index behind the last byte belongs to the last line when that is still
open, and otherwise to an empty line after it. No line is found further on.
-/

namespace Offside.Text

variable {c : Char} {text content line rest after : List Char} {lines before : List (List Char)} {number index : Nat}

/-! ### The lines of a text -/

/-- A line: characters that end no line, and at most one line end behind them. -/
def IsLine (line : List Char) : Prop :=
  ∃ body ending, line = body ++ ending ∧ (∀ c ∈ body, isLineEnd c = false) ∧
    ending ∈ [[], ['\n'], ['\r', '\n'], ['\r']]

/-- Pieces that are the lines of a text. -/
structure AreLines (text : List Char) (lines : List (List Char)) : Prop where
  flatten_eq : lines.flatten = text
  ne_nil : ∀ line ∈ lines, line ≠ []
  isLine : ∀ line ∈ lines, IsLine line
  /-- Only the last line may be left open. -/
  ended : ∀ line ∈ lines.dropLast, isEnded line = true
  /-- No pair of line end characters is split. -/
  whole : lines.IsChain fun line next => ¬ CutsPair line next

/-- A character in front of a line does not end it. -/
theorem isEnded_cons (h : line ≠ []) : isEnded (c :: line) = isEnded line := by
  rw [isEnded, isEnded, List.getLast?_cons_of_ne_nil h]

/-- A cut inside a pair stays one when more stands in front of it. -/
theorem CutsPair.cons (h : CutsPair text after) (c : Char) : CutsPair (c :: text) after := by
  have hne : text ≠ [] := by
    rintro rfl
    cases h.1
  exact (cutsPair_append_left hne [c] after).2 h

/-- A line goes on behind its first character, unless that is its line end. -/
theorem IsLine.of_cons (h : IsLine (c :: line)) :
    isLineEnd c = false ∧ IsLine line ∨ isLineEnd c = true ∧ (line = [] ∨ c = '\r' ∧ line = ['\n']) := by
  obtain ⟨body, ending, hline, hbody, hending⟩ := h
  cases body with
  | nil =>
    rw [List.nil_append] at hline
    subst hline
    simp only [List.mem_cons, List.cons.injEq, List.not_mem_nil, or_false, reduceCtorEq, false_or] at hending
    rcases hending with ⟨rfl, hnil⟩ | ⟨rfl, hfeed⟩ | ⟨rfl, hnil⟩
    · exact .inr ⟨rfl, .inl hnil⟩
    · exact .inr ⟨rfl, .inr ⟨rfl, hfeed⟩⟩
    · exact .inr ⟨rfl, .inl hnil⟩
  | cons d body =>
    obtain ⟨rfl, rfl⟩ := List.cons.inj hline
    exact .inl ⟨hbody c List.mem_cons_self, body, ending, rfl, (List.forall_mem_cons.1 hbody).2, hending⟩

/-- A line goes on with whatever stands behind a character that ends no line. -/
theorem isLine_cons_iff (hc : isLineEnd c = false) : IsLine (c :: line) ↔ IsLine line := by
  constructor
  · intro h
    rcases h.of_cons with ⟨-, hline⟩ | ⟨hend, -⟩
    · exact hline
    · rw [hc] at hend
      cases hend
  · rintro ⟨body, ending, rfl, hbody, hending⟩
    exact ⟨c :: body, ending, rfl, List.forall_mem_cons.2 ⟨hc, hbody⟩, hending⟩

/-- A line that opens with a line end has nothing else. -/
theorem IsLine.of_lineEnd (h : IsLine (c :: line)) (hc : isLineEnd c = true) :
    line = [] ∨ c = '\r' ∧ line = ['\n'] := by
  rcases h.of_cons with ⟨hopen, -⟩ | ⟨-, hline⟩
  · rw [hc] at hopen
    cases hopen
  · exact hline

/-- The only line end of a line is at its end. -/
theorem IsLine.isEnded_eq_any (h : IsLine line) : isEnded line = line.any isLineEnd := by
  obtain ⟨body, ending, rfl, hbody, hending⟩ := h
  have hplain : body.any isLineEnd = false := by simpa using hbody
  simp only [List.mem_cons, List.not_mem_nil, or_false] at hending
  rcases hending with rfl | rfl | rfl | rfl
  · rw [List.append_nil, hplain, isEnded]
    cases hlast : body.getLast? with
    | none => rfl
    | some c => exact hbody c (List.mem_of_getLast? hlast)
  all_goals simp [isEnded, isLineEnd]

/-- A line in front of the lines of a text, which it does not run into. -/
theorem AreLines.cons (h : AreLines rest lines) (hne : line ≠ []) (hline : IsLine line)
    (hended : rest ≠ [] → isEnded line = true) (hwhole : ¬ CutsPair line rest) :
    AreLines (line ++ rest) (line :: lines) := by
  refine ⟨congrArg (line ++ ·) h.flatten_eq, List.forall_mem_cons.2 ⟨hne, h.ne_nil⟩,
    List.forall_mem_cons.2 ⟨hline, h.isLine⟩, ?_, ?_⟩
  · cases lines with
    | nil => exact fun _ hmem => nomatch hmem
    | cons next lines =>
      rw [List.dropLast_cons_cons, List.forall_mem_cons]
      refine ⟨hended fun hnil => ?_, h.ended⟩
      rw [← h.flatten_eq] at hnil
      exact h.ne_nil next List.mem_cons_self (List.append_eq_nil_iff.1 hnil).1
  · cases lines with
    | nil => exact .singleton line
    | cons next lines =>
      refine List.isChain_cons_cons.2 ⟨?_, h.whole⟩
      rw [← h.flatten_eq, List.flatten_cons, cutsPair_append_right (h.ne_nil next List.mem_cons_self)] at hwhole
      exact hwhole

/-- The first line of a text, and the lines of what stands behind it. -/
theorem AreLines.of_cons (h : AreLines text (line :: lines)) :
    ∃ rest, text = line ++ rest ∧ AreLines rest lines ∧ (rest ≠ [] → isEnded line = true) ∧
      ¬ CutsPair line rest := by
  obtain ⟨hne, hnes⟩ := List.forall_mem_cons.1 h.ne_nil
  obtain ⟨hline, hlines⟩ := List.forall_mem_cons.1 h.isLine
  refine ⟨lines.flatten, h.flatten_eq.symm, ?_⟩
  cases lines with
  | nil => exact ⟨⟨rfl, nofun, nofun, nofun, .nil⟩, fun hnil => absurd rfl hnil, fun hcut => nomatch hcut.2⟩
  | cons next lines =>
    have hended := h.ended
    rw [List.dropLast_cons_cons, List.forall_mem_cons] at hended
    obtain ⟨hwhole, hwholes⟩ := List.isChain_cons_cons.1 h.whole
    refine ⟨⟨rfl, hnes, hlines, hended.2, hwholes⟩, fun _ => hended.1, ?_⟩
    rw [List.flatten_cons, cutsPair_append_right (hnes next List.mem_cons_self)]
    exact hwhole

/-- The empty text has no lines. -/
theorem AreLines.eq_nil (h : AreLines [] lines) : lines = [] := by
  cases lines with
  | nil => rfl
  | cons line lines =>
    exact absurd (List.append_eq_nil_iff.1 h.flatten_eq).1 (h.ne_nil line List.mem_cons_self)

/-- A character that ends no line stands in front of the first line. -/
theorem AreLines.cons_char (h : AreLines text (line :: lines)) (hc : isLineEnd c = false) :
    AreLines (c :: text) ((c :: line) :: lines) := by
  have hne := h.ne_nil line List.mem_cons_self
  obtain ⟨rest, rfl, hlines, hended, hwhole⟩ := h.of_cons
  refine hlines.cons (List.cons_ne_nil c line) ((isLine_cons_iff hc).2 (h.isLine line List.mem_cons_self)) ?_ ?_
  · rw [isEnded_cons hne]
    exact hended
  · exact fun hcut => hwhole ((cutsPair_append_left hne [c] rest).1 hcut)

/-- Cutting a text behind its line ends gives its lines. -/
theorem areLines_splitLines (text : List Char) : AreLines text (splitLines text) := by
  fun_induction splitLines text with
  | case1 => exact ⟨rfl, nofun, nofun, nofun, .nil⟩
  | case2 cs ih =>
    change AreLines (['\r', '\n'] ++ cs) _
    exact ih.cons (List.cons_ne_nil _ _) ⟨[], _, rfl, nofun, by simp⟩ (fun _ => rfl)
      fun hcut => absurd hcut.1 (by decide)
  | case3 c cs hpair hend ih =>
    have hcases : c = '\n' ∨ c = '\r' := by simpa [isLineEnd] using hend
    change AreLines ([c] ++ cs) _
    exact ih.cons (List.cons_ne_nil _ _) ⟨[], [c], rfl, nofun, by simpa using hcases⟩
      (fun _ => by simpa [isEnded] using hend) (not_cutsPair_singleton hpair)
  | case4 c cs hpair hend hnone ih =>
    rw [hnone] at ih
    obtain rfl : [] = cs := ih.flatten_eq
    have hplain : isLineEnd c = false := by simpa using hend
    exact ih.cons (List.cons_ne_nil c []) ⟨[c], [], rfl, by simpa using hplain, by simp⟩
      (fun hne => absurd rfl hne) fun hcut => nomatch hcut.2
  | case5 c cs hpair hend first lines hlines ih =>
    rw [hlines] at ih
    exact ih.cons_char (by simpa using hend)

/-- A line only goes on behind a line end that is the first half of a pair. -/
theorem IsLine.cutsPair_of_append {a b : List Char} (h : IsLine (a ++ b)) (hended : isEnded a = true)
    (hb : b ≠ []) : CutsPair a b := by
  induction a with
  | nil => cases hended
  | cons c a ih =>
    by_cases hc : isLineEnd c = true
    · rcases h.of_lineEnd hc with hnil | ⟨rfl, hfeed⟩
      · exact absurd (List.append_eq_nil_iff.1 hnil).2 hb
      · rcases List.append_eq_singleton_iff.1 hfeed with ⟨rfl, rfl⟩ | ⟨-, hnil⟩
        · exact ⟨rfl, rfl⟩
        · exact absurd hnil hb
    · rw [Bool.not_eq_true] at hc
      have hne : a ≠ [] := by
        rintro rfl
        simp [isEnded, hc] at hended
      rw [isEnded_cons hne] at hended
      exact (ih ((isLine_cons_iff hc).1 h) hended).cons c

/-- Of two first lines, none goes on behind the other. -/
theorem AreLines.eq_of_isPrefix {line' : List Char} {lines' : List (List Char)} (h : AreLines text (line :: lines))
    (h' : AreLines text (line' :: lines')) (hfront : line <+: line') : line = line' := by
  by_contra hne
  obtain ⟨more, rfl⟩ := hfront
  have hmore : more ≠ [] := fun hnil => hne (by rw [hnil, List.append_nil])
  obtain ⟨rest, rfl, -, hended, hwhole⟩ := h.of_cons
  obtain ⟨rest', htext, -⟩ := h'.of_cons
  rw [List.append_assoc] at htext
  obtain rfl : rest = more ++ rest' := List.append_cancel_left htext
  rw [cutsPair_append_right hmore] at hwhole
  have hended' := hended fun hnil => hmore (List.append_eq_nil_iff.1 hnil).1
  exact hwhole ((h'.isLine _ List.mem_cons_self).cutsPair_of_append hended' hmore)

/-- A text has its lines in one way only. -/
theorem AreLines.eq {lines' : List (List Char)} (h : AreLines text lines) (h' : AreLines text lines') :
    lines = lines' := by
  induction lines generalizing text lines' with
  | nil =>
    obtain rfl : [] = text := h.flatten_eq
    exact h'.eq_nil.symm
  | cons line lines ih =>
    cases lines' with
    | nil =>
      obtain rfl : [] = text := h'.flatten_eq
      exact h.eq_nil
    | cons line' lines' =>
      obtain ⟨rest, htext, hlines, -⟩ := h.of_cons
      obtain ⟨rest', htext', hlines', -⟩ := h'.of_cons
      have hfirst : line = line' := by
        rcases List.prefix_or_prefix_of_prefix ⟨rest, htext.symm⟩ ⟨rest', htext'.symm⟩ with hshort | hlong
        · exact h.eq_of_isPrefix h' hshort
        · exact (h'.eq_of_isPrefix h hlong).symm
      subst hfirst
      obtain rfl : rest = rest' := List.append_cancel_left (htext.symm.trans htext')
      rw [ih hlines hlines']

/-- The lines of a text are those that it is cut into. -/
theorem areLines_iff : AreLines text lines ↔ lines = splitLines text := by
  constructor
  · exact fun h => h.eq (areLines_splitLines text)
  · rintro rfl
    exact areLines_splitLines text

/-- A line has its line end behind everything else. -/
theorem exists_of_mem_splitLines (h : line ∈ splitLines text) :
    ∃ body ending, line = body ++ ending ∧ (∀ c ∈ body, isLineEnd c = false) ∧
      ∀ c ∈ ending, isLineEnd c = true := by
  obtain ⟨body, ending, hline, hbody, hending⟩ := (areLines_splitLines text).isLine line h
  refine ⟨body, ending, hline, hbody, ?_⟩
  simp only [List.mem_cons, List.not_mem_nil, or_false] at hending
  rcases hending with rfl | rfl | rfl | rfl <;> simp [isLineEnd]

/-! ### The line of a byte -/

/-- A line, behind some others, whose bytes an index is among. -/
structure HoldsByte (lines : List (List Char)) (index : Nat) (before : List (List Char)) (line : List Char) :
    Prop where
  isPrefix : before ++ [line] <+: lines
  le : byteLength before.flatten ≤ index
  lt : index < byteLength before.flatten + byteLength line

/-- Every byte is in a line. -/
theorem exists_holdsByte (h : index < byteLength lines.flatten) :
    ∃ before line, HoldsByte lines index before line := by
  induction lines generalizing index with
  | nil => exact absurd h (Nat.not_lt_zero index)
  | cons first lines ih =>
    rw [List.flatten_cons, byteLength_append] at h
    by_cases hfirst : index < byteLength first
    · exact ⟨[], first, ⟨lines, rfl⟩, Nat.zero_le index, by simpa using hfirst⟩
    · have hlater : index - byteLength first < byteLength lines.flatten := by omega
      obtain ⟨before, line, hline⟩ := ih hlater
      obtain ⟨hfront, hle, hlt⟩ := hline
      refine ⟨first :: before, line, List.cons_prefix_cons.2 ⟨rfl, hfront⟩, ?_, ?_⟩
      all_goals rw [List.flatten_cons, byteLength_append]; omega

/-- A line that a byte is in comes no earlier than another one. -/
theorem HoldsByte.eq_of_isPrefix {a b : List (List Char)} {x y : List Char} (ha : HoldsByte lines index a x)
    (hb : HoldsByte lines index b y) (hfront : a ++ [x] <+: b ++ [y]) : a = b ∧ x = y := by
  rcases List.prefix_concat_iff.1 hfront with heq | ⟨more, rfl⟩
  · simpa using heq
  · -- the other line starts behind the last byte of this one
    have hle := hb.le
    have hlt := ha.lt
    simp only [List.flatten_append, List.flatten_singleton, byteLength_append] at hle
    omega

/-- No byte is in two lines. -/
theorem HoldsByte.eq {a b : List (List Char)} {x y : List Char} (ha : HoldsByte lines index a x)
    (hb : HoldsByte lines index b y) : a = b ∧ x = y := by
  rcases List.prefix_or_prefix_of_prefix ha.isPrefix hb.isPrefix with hshort | hlong
  · exact ha.eq_of_isPrefix hb hshort
  · obtain ⟨hbefore, hline⟩ := hb.eq_of_isPrefix ha hlong
    exact ⟨hbefore.symm, hline.symm⟩

/-! ### Looking up an index -/

/-- A place in front of the end of the first line is found there. -/
theorem locate_cons_of_lt (h : index < byteLength line) :
    locate number index (line :: lines) = some ⟨number, line, index⟩ := by
  rw [locate, if_pos (.inl h)]

/-- A place behind the line end of the first line is found in the others. -/
theorem locate_cons_of_ended (h : isEnded line = true) :
    locate number (byteLength line + index) (line :: lines) = locate (number + 1) index lines := by
  rw [locate, if_neg, Nat.add_sub_cancel_left]
  rintro (hlt | ⟨-, hopen⟩)
  · omega
  · exact hopen h

/-- An index behind lines that are all ended is looked up in the others. -/
theorem locate_append (hended : ∀ line ∈ before, isEnded line = true) (number offset : Nat)
    (behind : List (List Char)) :
    locate number (byteLength before.flatten + offset) (before ++ behind) =
      locate (number + before.length) offset behind := by
  induction before generalizing number with
  | nil => simp
  | cons line before ih =>
    obtain ⟨hline, hlines⟩ := List.forall_mem_cons.1 hended
    rw [List.flatten_cons, byteLength_append, Nat.add_assoc, List.cons_append, locate_cons_of_ended hline,
      ih hlines, List.length_cons]
    congr 1
    omega

/-- All lines in front of another one are ended. -/
theorem AreLines.isEnded_of_append {behind : List (List Char)} (h : AreLines text (before ++ line :: behind)) :
    ∀ other ∈ before, isEnded other = true := by
  intro other hother
  refine h.ended other ?_
  rw [List.dropLast_append_of_ne_nil (List.cons_ne_nil line behind)]
  exact List.mem_append_left _ hother

/-- The last line is left open, or all lines are ended. -/
theorem last_open_or_ended (text : List Char) :
    (∃ before line, splitLines text = before ++ [line] ∧ isEnded line = false) ∨
      ∀ line ∈ splitLines text, isEnded line = true := by
  have hlines := areLines_splitLines text
  rcases List.eq_nil_or_concat (splitLines text) with hnil | ⟨before, line, hlast⟩
  · exact .inr (by simp [hnil])
  · cases hended : isEnded line with
    | false => exact .inl ⟨before, line, by simpa using hlast, hended⟩
    | true =>
      rw [List.concat_eq_append] at hlast
      rw [hlast] at hlines ⊢
      exact .inr (List.forall_mem_append.2 ⟨hlines.isEnded_of_append, by simpa using hended⟩)

/-- The index of a byte is found in its line. -/
theorem lineAt?_of_holdsByte (h : HoldsByte (splitLines content) index before line) :
    lineAt? content index = some ⟨before.length + 1, line, index - byteLength before.flatten⟩ := by
  obtain ⟨⟨behind, hbehind⟩, hle, hlt⟩ := h
  rw [List.append_assoc, List.singleton_append] at hbehind
  have hlines := areLines_splitLines content
  obtain ⟨offset, rfl⟩ := Nat.exists_eq_add_of_le hle
  rw [← hbehind] at hlines
  rw [lineAt?, ← hbehind, locate_append hlines.isEnded_of_append, locate_cons_of_lt (by omega),
    Nat.add_sub_cancel_left, Nat.add_comm]

/-- The index behind a text is found at the end of its last line, if that is left open. -/
theorem lineAt?_end_of_open (hlines : splitLines content = before ++ [line]) (hopen : isEnded line = false) :
    lineAt? content (byteLength content) = some ⟨before.length + 1, line, byteLength line⟩ := by
  have hare := areLines_splitLines content
  have hflat := hare.flatten_eq
  rw [hlines] at hare hflat
  rw [List.flatten_append, List.flatten_singleton] at hflat
  rw [lineAt?, hlines, ← hflat, byteLength_append, locate_append hare.isEnded_of_append, locate,
    if_pos (.inr ⟨rfl, by simp [hopen]⟩), Nat.add_comm]

/-- The index behind a text is found on an empty line of its own, if all lines are ended. -/
theorem lineAt?_end_of_ended (hended : ∀ line ∈ splitLines content, isEnded line = true) :
    lineAt? content (byteLength content) = some ⟨(splitLines content).length + 1, [], 0⟩ := by
  have hfound := locate_append hended 1 0 []
  rw [(areLines_splitLines content).flatten_eq, List.append_nil, Nat.add_zero] at hfound
  rw [lineAt?, hfound, locate, if_pos rfl, Nat.add_comm]

/-- Nothing is found further on. -/
theorem lineAt?_beyond (h : byteLength content < index) : lineAt? content index = none := by
  have hare := areLines_splitLines content
  have hflat := hare.flatten_eq
  obtain ⟨more, rfl⟩ := Nat.exists_eq_add_of_lt h
  rcases last_open_or_ended content with ⟨before, line, hlines, hopen⟩ | hended
  · rw [hlines] at hare hflat
    rw [List.flatten_append, List.flatten_singleton] at hflat
    rw [lineAt?, hlines, ← hflat, byteLength_append, Nat.add_assoc, Nat.add_assoc,
      locate_append hare.isEnded_of_append, locate, if_neg (by omega), Nat.add_sub_cancel_left, locate,
      if_neg (Nat.succ_ne_zero more)]
  · have hfound := locate_append hended 1 (more + 1) []
    rw [hflat, List.append_nil, ← Nat.add_assoc] at hfound
    rw [lineAt?, hfound, locate, if_neg (Nat.succ_ne_zero more)]

/-- Something is found for every index up to the end. -/
theorem lineAt?_eq_none_iff : lineAt? content index = none ↔ byteLength content < index := by
  refine ⟨fun hnone => ?_, lineAt?_beyond⟩
  by_contra hle
  rcases Nat.lt_or_eq_of_le (Nat.not_lt.1 hle) with hlt | rfl
  · rw [← (areLines_splitLines content).flatten_eq] at hlt
    obtain ⟨before, line, hline⟩ := exists_holdsByte hlt
    rw [lineAt?_of_holdsByte hline] at hnone
    cases hnone
  · rcases last_open_or_ended content with ⟨before, line, hlines, hopen⟩ | hended
    · rw [lineAt?_end_of_open hlines hopen] at hnone
      cases hnone
    · rw [lineAt?_end_of_ended hended] at hnone
      cases hnone

/-- Looking up an index finds its line: nothing beyond the text, the one line that holds the byte within the text,
and at the end the last line if it is open, or else an empty line after all others. What the lines of a text are
does not depend on how it is cut into them. -/
theorem lineAt?_finds_line (content : List Char) :
    (∀ lines, AreLines content lines ↔ lines = splitLines content) ∧
    (∀ index, lineAt? content index = none ↔ byteLength content < index) ∧
    (∀ index, index < byteLength content → ∃ before line,
      HoldsByte (splitLines content) index before line ∧
      (∀ before' line', HoldsByte (splitLines content) index before' line' → before' = before ∧ line' = line) ∧
      lineAt? content index = some ⟨before.length + 1, line, index - byteLength before.flatten⟩) ∧
    (∀ before line, splitLines content = before ++ [line] → (∀ c ∈ line, isLineEnd c = false) →
      lineAt? content (byteLength content) = some ⟨before.length + 1, line, byteLength line⟩) ∧
    ((∀ before line, splitLines content = before ++ [line] → ∃ c ∈ line, isLineEnd c = true) →
      lineAt? content (byteLength content) = some ⟨(splitLines content).length + 1, [], 0⟩) := by
  have hare := areLines_splitLines content
  have hisLine : ∀ before line, splitLines content = before ++ [line] → IsLine line := by
    intro before line hlines
    exact hare.isLine line (by rw [hlines]; simp)
  refine ⟨fun lines => areLines_iff, fun index => lineAt?_eq_none_iff, fun index hindex => ?_,
    fun before line hlines hplain => ?_, fun hbroken => ?_⟩
  · rw [← hare.flatten_eq] at hindex
    obtain ⟨before, line, hline⟩ := exists_holdsByte hindex
    exact ⟨before, line, hline, fun _ _ hother => hother.eq hline, lineAt?_of_holdsByte hline⟩
  · refine lineAt?_end_of_open hlines ?_
    rw [(hisLine before line hlines).isEnded_eq_any]
    simpa using hplain
  · refine lineAt?_end_of_ended ((last_open_or_ended content).resolve_left ?_)
    rintro ⟨before, line, hlines, hopen⟩
    obtain ⟨c, hc, hend⟩ := hbroken before line hlines
    rw [(hisLine before line hlines).isEnded_eq_any, List.any_eq_false] at hopen
    exact hopen c hc hend

example : lineAt? "é\rcd\r\nef".toList 1 = some ⟨1, "é\r".toList, 1⟩ ∧
    lineAt? "é\rcd\r\nef".toList 6 = some ⟨2, "cd\r\n".toList, 3⟩ ∧
    lineAt? "x\r".toList 2 = some ⟨2, [], 0⟩ := by decide

end Offside.Text
