import Mathlib.Data.List.Forall2
import Offside.Proofs.Layout.Reading
import Offside.Proofs.Scan.LogicalLines

/-!
# Rendering tokens

The tokens of an analysis can be written out again: one space for each open block in front of every line,
the texts of its tokens with one space between them, and a line feed for each line end. What was written is
analysed without a fault again, and gives the same tokens.

The blocks of a rendered text are as wide as can be: the outermost has width one, and each is one wider than
the one around it. So a line that opens a block is one wider than the innermost, and a line that closes some
has the width of one that is kept.
-/

namespace Offside

namespace Layout

/-- What stands in front of a word: the margin of its line, or one space. -/
def gap (opened : Nat) (fresh : Bool) : List Char :=
  if fresh then List.replicate opened ' ' else [' ']

/-- The text of some tokens, given the number of open blocks and whether a line starts here. -/
def renderFrom (opened : Nat) (fresh : Bool) : List Token → List Char
  | [] => []
  | token :: tokens =>
    match token.kind with
    | .indent => renderFrom (opened + 1) fresh tokens
    | .dedent => renderFrom (opened - 1) fresh tokens
    | .endOfInput => renderFrom opened fresh tokens
    | .newline => '\n' :: renderFrom opened true tokens
    | _ => gap opened fresh ++ (token.text ++ renderFrom opened false tokens)

/-- The text of all tokens of a source. -/
def render (tokens : List Token) : List Char :=
  renderFrom 0 true tokens

example (p : Position) :
    render [.spanning .identifier ['a'] p, .spanning .newline ['\r'] p, .synthetic .indent p,
      .spanning .number ['1'] p, .synthetic .dedent p, .synthetic .endOfInput p] = "a\n 1".toList := rfl

/-! ### What is rendered -/

section Rendered

variable {opened : Nat} {fresh : Bool}

/-- Tokens that close blocks are not written, but counted. -/
theorem renderFrom_dedents (count : Nat) (position : Position) (tail : List Token) :
    renderFrom opened fresh (List.replicate count (.synthetic .dedent position) ++ tail) =
      renderFrom (opened - count) fresh tail := by
  induction count generalizing opened with
  | zero => rfl
  | succ count ih =>
    have hcount : opened - (count + 1) = opened - 1 - count := by omega
    rw [hcount, ← ih]
    rfl

/-- A lead is not written, but counted. -/
theorem renderFrom_lead (lead : Lead) (position : Position) (tail : List Token) :
    renderFrom opened fresh (lead.tokens position ++ tail) = renderFrom (lead.opened opened) fresh tail := by
  cases lead with
  | level | indent => rfl
  | dedents more =>
    rw [Lead.tokens, Lead.kinds, List.map_replicate]
    exact renderFrom_dedents (more + 1) position tail

/-- A line end is written as a line feed. -/
theorem renderFrom_newline {newline : Token} (h : newline.kind = .newline) (tail : List Token) :
    renderFrom opened fresh (newline :: tail) = '\n' :: renderFrom opened true tail := by
  rw [renderFrom, h]

/-- Nothing is written for the tokens that end a scan. -/
theorem renderFrom_endTokens (count : Nat) (position : Position) :
    renderFrom opened fresh (endTokens count position) = [] := by
  rw [endTokens, renderFrom_dedents]
  rfl

/-- A word is written behind its gap. -/
theorem renderFrom_word {token : Token} (h : token.kind.isWord = true) (tail : List Token) :
    renderFrom opened fresh (token :: tail) =
      gap opened fresh ++ (token.text ++ renderFrom opened false tail) := by
  obtain ⟨kind, text, start, stop⟩ := token
  cases kind <;> first | rfl | cases h

end Rendered

/-- A word of a line, as it is printed. -/
def Word.ofToken (word : WordToken) : Word :=
  ⟨word.kind, word.text, word.whole⟩

/-- Words are written with one space between them. -/
theorem renderFrom_words {opened : Nat} {fresh : Bool} (word : WordToken) (words : List WordToken)
    (tail : List Token) :
    renderFrom opened fresh (word.toToken :: (words.map WordToken.toToken ++ tail)) =
      gap opened fresh ++
        (joinWords ((word :: words).map Word.ofToken) ++ renderFrom opened false tail) := by
  induction words generalizing word fresh with
  | nil => exact renderFrom_word word.isWord tail
  | cons next words ih =>
    have hjoin : joinWords ((word :: next :: words).map Word.ofToken) =
        word.text ++ ' ' :: joinWords ((next :: words).map Word.ofToken) := rfl
    rw [renderFrom_word word.isWord, List.map_cons, List.cons_append, ih, hjoin, List.append_assoc]
    rfl

/-- A line is written as its margin and its words. -/
theorem renderFrom_line (line : LogicalLine) (opened : Nat) (tail : List Token) :
    renderFrom opened true (line.tokens ++ tail) =
      List.replicate (line.lead.opened opened) ' ' ++
        (joinWords (line.words.map Word.ofToken) ++ renderFrom (line.lead.opened opened) false tail) := by
  rw [LogicalLine.tokens, List.append_assoc, renderFrom_lead]
  exact renderFrom_words line.first line.more tail

/-! ### The blocks of a rendered text -/

/-- The widths of some blocks, each one wider than the one around it. -/
def staircase : Nat → List Nat
  | 0 => []
  | count + 1 => (count + 1) :: staircase count

theorem length_staircase (count : Nat) : (staircase count).length = count := by
  induction count with
  | zero => rfl
  | succ count ih => rw [staircase, List.length_cons, ih]

theorem innermost_staircase (count : Nat) : innermost (staircase count) = count := by
  cases count <;> rfl

/-- Blocks that are wider than one of them are those inside of it. -/
theorem dropWhile_staircase {width count : Nat} (h : width ≤ count) :
    (staircase count).dropWhile (width < ·) = staircase width := by
  induction count with
  | zero =>
    obtain rfl : width = 0 := by omega
    rfl
  | succ count ih =>
    by_cases hinside : width < count + 1
    · rw [staircase, List.dropWhile_cons_of_pos (by simpa using hinside), ih (by omega)]
    · obtain rfl : width = count + 1 := by omega
      rw [staircase, List.dropWhile_cons_of_neg (by simp)]

/-- A line that is one wider than the innermost block opens one. -/
theorem shift_staircase_succ (count : Nat) : shift (staircase count) (count + 1) = .opens := by
  rw [shift, innermost_staircase, if_pos (Nat.lt_succ_self count)]

/-- A line that is no wider settles in the block of its width. -/
theorem shift_staircase_sub {closing count : Nat} (h : closing ≤ count) :
    ∃ closed, closed.length = closing ∧
      shift (staircase count) (count - closing) = .settles closed (staircase (count - closing)) := by
  have hwidth : count - closing ≤ count := Nat.sub_le _ _
  refine ⟨(staircase count).takeWhile (count - closing < ·), ?_, ?_⟩
  · have hlength := congrArg List.length
      (List.takeWhile_append_dropWhile (p := (count - closing < ·)) (l := staircase count))
    rw [List.length_append, dropWhile_staircase hwidth, length_staircase, length_staircase] at hlength
    omega
  · rw [shift, innermost_staircase, dropWhile_staircase hwidth, innermost_staircase,
      if_neg (Nat.not_lt.2 hwidth), if_pos rfl]

/-- A margin of spaces. -/
def spaces (count : Nat) : Margin where
  text := List.replicate count ' '
  blank := fun c hc => by
    rw [List.eq_of_mem_replicate hc]
    rfl

/-- Each space widens a margin by one. -/
theorem indentWidth_spaces (count : Nat) : indentWidth (spaces count).text = count :=
  (foldl_widen_spaces count 0).trans (Nat.zero_add count)

/-! ### Reading it again -/

section Lines

variable {before : Nat} {after : List Char}

/-- Behind a rendered margin, as many blocks are open as spaces were read. -/
theorem reads_lead {lead : Lead} {lexeme : Lexeme} (hfits : lead.Fits before)
    (hlexeme : classify after = some lexeme) (htrivia : lexeme.reading.isTrivia = false) :
    Reads ⟨(spaces (lead.opened before)).text ++ after, staircase before, .margin none⟩
      (lead.kinds.map fun kind => ⟨kind, []⟩) ⟨after, staircase (lead.opened before), .line 0⟩ := by
  have hblank : ∀ c, after.head? = some c → Text.isBlank c = false := by
    intro c hc
    obtain ⟨cs, rfl⟩ := List.head?_eq_some_iff.1 hc
    exact isBlank_eq_false_of_classify hlexeme htrivia
  obtain ⟨measured, hwidth, hmargin⟩ := reads_margin (spaces (lead.opened before)) (staircase before) hblank
  rw [indentWidth_spaces] at hwidth
  have hcloses : ∀ count ≤ before, lead = .closing count →
      Reads ⟨after, staircase before, .margin measured⟩ (lead.kinds.map fun kind => ⟨kind, []⟩)
        ⟨after, staircase (lead.opened before), .line 0⟩ := by
    rintro count hcount rfl
    obtain ⟨closed, hlength, hshift⟩ := shift_staircase_sub hcount
    rw [Lead.opened_closing] at hwidth ⊢
    rw [← hwidth] at hshift
    have hreads := reads_dedents hlexeme htrivia hshift
    rw [List.map_const', hlength, hwidth] at hreads
    rw [Lead.kinds_closing, List.map_replicate]
    exact hreads
  refine hmargin.trans ?_
  cases lead with
  | level => exact hcloses 0 (Nat.zero_le _) rfl
  | indent =>
    have hshift : shift (staircase before) (measured.getD 0) = .opens := by
      rw [hwidth]
      exact shift_staircase_succ before
    have hreads := reads_indent hlexeme htrivia hshift
    rw [hwidth] at hreads
    exact hreads
  | dedents more => exact hcloses (more + 1) hfits rfl

/-- A rendered line is read up to a separator. -/
theorem reads_line {line : LogicalLine} (hfits : line.lead.Fits before) (hafter : Separates after) :
    Reads
      ⟨List.replicate (line.lead.opened before) ' ' ++ (joinWords (line.words.map Word.ofToken) ++ after),
        staircase before, .margin none⟩
      (line.tokens.map Token.form) ⟨after, staircase (line.lead.opened before), .line line.depth⟩ := by
  have hne : line.words.map Word.ofToken ≠ [] := List.cons_ne_nil _ _
  obtain ⟨lexeme, hlexeme, htrivia⟩ := classify_joinWords hne hafter
  have hwords := reads_joinWords hne hafter (staircase (line.lead.opened before)) 0
  have hdepth : (line.words.map Word.ofToken).foldl (fun depth word => bracketDepth depth word.kind) 0 =
      line.depth := by
    simp only [bracketDepth_eq, List.foldl_map]
    rfl
  have hforms : line.tokens.map Token.form =
      (line.lead.kinds.map fun kind => ⟨kind, []⟩) ++ (line.words.map Word.ofToken).map Word.form := by
    simp [LogicalLine.tokens, Lead.tokens, Function.comp_def, Token.form, Token.synthetic, Word.ofToken, Word.form]
  rw [hdepth] at hwords
  rw [hforms]
  exact (reads_lead hfits hlexeme htrivia).trans hwords

end Lines

/-- A form repeats a token when it has the kind of the token, and unless that ends a line the text too. -/
structure Repeats (form : Form) (token : Token) : Prop where
  kind_eq : form.kind = token.kind
  text_eq : token.kind ≠ .newline → form.text = token.text

/-- Tokens repeat themselves. -/
theorem repeats_forms (tokens : List Token) : List.Forall₂ Repeats (tokens.map Token.form) tokens := by
  rw [List.forall₂_map_left_iff, List.forall₂_same]
  exact fun token _ => ⟨rfl, fun _ => rfl⟩

/-- Whole lines are rendered as a text that is read again as their tokens. -/
theorem exists_reads_lines {opened : Nat} {tokens : List Token} (h : Lines opened tokens) :
    ∃ text forms,
      (∀ tail, renderFrom 0 true (tokens ++ tail) = text ++ renderFrom opened true tail) ∧
      (∀ after, Reads ⟨text ++ after, [], .margin none⟩ forms ⟨after, staircase opened, .margin none⟩) ∧
      List.Forall₂ Repeats forms tokens := by
  induction h with
  | nil => exact ⟨[], [], fun _ => rfl, fun _ => .refl _, .nil⟩
  | @line before tokens line newline hlines hfits hbalanced hnewline ih =>
    obtain ⟨text, forms, htext, hreads, hrepeats⟩ := ih
    refine ⟨text ++ (List.replicate (line.lead.opened before) ' ' ++
      (joinWords (line.words.map Word.ofToken) ++ ['\n'])), forms ++ (line.tokens.map Token.form ++ [newlineForm]),
      fun tail => ?_, fun after => ?_, ?_⟩
    · rw [List.append_assoc, htext, List.append_assoc, renderFrom_line, List.singleton_append,
        renderFrom_newline hnewline]
      simp
    · have hline := reads_line hfits (separates_lineFeed after)
      rw [hbalanced] at hline
      have hall := (hreads _).trans (hline.trans (reads_lineFeed after _))
      simpa using hall
    · exact List.rel_append hrepeats (List.rel_append (repeats_forms _)
        (.cons ⟨hnewline.symm, fun h => absurd hnewline h⟩ .nil))

/-- The tokens of a stream are rendered as a text that is read again as they are. -/
theorem exists_reads_stream {tokens : List Token} (h : Stream tokens) :
    ∃ forms view, Reads ⟨render tokens, [], .margin none⟩ forms view ∧ view.rest = [] ∧
      List.Forall₂ Repeats (forms ++ (List.replicate view.blocks.length dedentForm ++ [endForm])) tokens := by
  have hends : ∀ opened position, (endTokens opened position).map Token.form =
      List.replicate (staircase opened).length dedentForm ++ [endForm] := fun opened position => by
    rw [length_staircase, endTokens, List.map_append, List.map_replicate]
    rfl
  cases h with
  | @ended opened tokens position hlines =>
    obtain ⟨text, forms, htext, hreads, hrepeats⟩ := exists_reads_lines hlines
    refine ⟨forms, ⟨[], staircase opened, .margin none⟩, ?_, rfl, ?_⟩
    · rw [render, htext, renderFrom_endTokens]
      exact hreads []
    · rw [← hends opened position]
      exact List.rel_append hrepeats (repeats_forms _)
  | @unended before tokens line position hlines hfits =>
    obtain ⟨text, forms, htext, hreads, hrepeats⟩ := exists_reads_lines hlines
    refine ⟨forms ++ line.tokens.map Token.form,
      ⟨[], staircase (line.lead.opened before), .line line.depth⟩, ?_, rfl, ?_⟩
    · rw [render, htext, renderFrom_line, renderFrom_endTokens]
      exact (hreads _).trans (reads_line hfits fun c hc => by cases hc)
    · rw [← hends _ position, List.append_assoc]
      exact List.rel_append hrepeats (List.rel_append (repeats_forms _) (repeats_forms _))

/-- A text that is read to its end without a fault is analysed as what was read, with the tokens behind it
that end a scan. -/
theorem exists_analyze_of_reads {source : List Char} {forms : List Form} {view : View}
    (h : Reads ⟨source, [], .margin none⟩ forms view) (hrest : view.rest = []) :
    ∃ tokens, analyze source = .ok tokens ∧
      tokens.map Token.form = forms ++ (List.replicate view.blocks.length dedentForm ++ [endForm]) := by
  obtain ⟨events, position, hsteps, hforms, herrors⟩ := h .start
  obtain ⟨htokens, hfaults⟩ :=
    eq_of_steps_of_step_eq_none hsteps ((ScanState.step_eq_none_iff _).2 (.inl hrest))
  refine ⟨_, analyze_eq_ok_iff.2 ⟨hfaults.trans herrors, rfl⟩, ?_⟩
  rw [htokens, List.map_append, hforms, ScanState.tokens_finish, List.map_append, List.map_const',
    List.map_replicate]
  rfl

/-- The tokens of an analysis without faults are given again by the analysis of their rendering. -/
theorem analyze_render {source : List Char} {tokens : List Token} (h : analyze source = .ok tokens) :
    ∃ again, analyze (render tokens) = .ok again ∧
      List.Forall₂ (fun a token => Repeats a.form token) again tokens := by
  obtain ⟨hfaults, rfl⟩ := analyze_eq_ok_iff.1 h
  obtain ⟨forms, view, hreads, hrest, hrepeats⟩ := exists_reads_stream (stream_tokensOf hfaults)
  obtain ⟨again, hagain, hforms⟩ := exists_analyze_of_reads hreads hrest
  rw [← hforms, List.forall₂_map_left_iff] at hrepeats
  exact ⟨again, hagain, hrepeats⟩

/-- Tokens that touch, a line that ends with a carriage return, a form feed in a margin, a bracket that stays
open, and a string with an escaped line end. -/
theorem analyze_render_of_touching_tokens :
    ∃ tokens, analyze "a==1.b\r \x0c\t['\\\n'".toList = .ok tokens ∧
      ∃ again, analyze (render tokens) = .ok again ∧
        List.Forall₂ (fun a token => Repeats a.form token) again tokens := by
  have hfaults : faultsOf "a==1.b\r \x0c\t['\\\n'".toList = [] := by
    rw [faultsOf_eq_runFor]
    decide +kernel
  have hanalyze := analyze_eq_ok_iff.2 ⟨hfaults, rfl⟩
  exact ⟨_, hanalyze, analyze_render hanalyze⟩

end Layout

end Offside
