import Offside.Proofs.Layout.Printing
import Offside.Proofs.Scan.Newlines

/-!
# The outline of a text

The tokens and faults of any text follow from its lexemes by the layout algorithm on a stack of widths. A
lexeme begins a logical line when it is the first token or fault of the text or behind a line end that is a
token. Its width is that of the blanks behind the last line end in front of it, whether or not that was a
token, and whatever comments stand in between.

A scan measures these blanks when it comes by, long before it knows that a logical line begins. While it is
in a margin it keeps either the place of the line end or the width of the blanks behind it, and the proof
follows both along the run.
-/

namespace Offside

open Text

instance (placed : PlacedLexeme) (tokens : List Token) : Decidable (placed.YieldsNewline tokens) :=
  inferInstanceAs (Decidable (∃ token ∈ tokens, token.span = _))

/-- The token or line end that a lexeme is. -/
def PlacedLexeme.span? (placed : PlacedLexeme) : Option TokenSpan :=
  placed.token?.or placed.newline?

/-- What a token that stands for no text says at a byte index. -/
def Form.markAt (index : Nat) (form : Form) : TokenSpan :=
  ⟨form.kind, form.text, index, index⟩

/-- The position at a byte index of a text. -/
def positionAt (source : List Char) (index : Nat) : Position :=
  Position.start.advanceOver ((takeBytes? index source).getD [])

/-- A place of a text is found from its index. -/
theorem positionAt_index {source : List Char} {p : Position} (h : p.IsPlaceIn source) :
    positionAt source p.index = p := by
  obtain ⟨before, after, rfl, hmark⟩ := h
  rw [positionAt, hmark.index_eq, takeBytes?_append, Option.getD_some]
  exact hmark.advanced.symm

namespace Layout

/-- A lexeme that shows in the outline of a text, with the width of its line if it begins a logical line. -/
structure Entry where
  placed : PlacedLexeme
  width? : Option Nat

/-- The width of the blanks that stand at a byte index of a text. -/
def widthAt (source : List Char) (index : Nat) : Nat :=
  indentWidth (((dropBytes? index source).getD []).takeWhile isBlank)

/-- The entries among some lexemes of a text, given which line ends are tokens. In front of them, `begins`
says whether a logical line is still to begin, and `line` where the last line end stopped. -/
def entriesFrom (source : List Char) (tokens : List Token) :
    Bool → Nat → List PlacedLexeme → List Entry
  | _, _, [] => []
  | begins, line, placed :: lexemes =>
    match placed.reading with
    | .blank | .comment => entriesFrom source tokens begins line lexemes
    | .lineEnd =>
      if placed.YieldsNewline tokens then ⟨placed, none⟩ :: entriesFrom source tokens true placed.stop lexemes
      else entriesFrom source tokens begins placed.stop lexemes
    | .token _ | .fault _ =>
      ⟨placed, if begins then some (widthAt source line) else none⟩ ::
        entriesFrom source tokens false line lexemes

/-- Blanks and comments do not show. -/
theorem entriesFrom_of_trivia {source : List Char} {tokens : List Token} {begins : Bool} {line : Nat}
    {placed : PlacedLexeme} (lexemes : List PlacedLexeme) (htrivia : placed.reading.isTrivia = true)
    (hreading : placed.reading ≠ .lineEnd) :
    entriesFrom source tokens begins line (placed :: lexemes) =
      entriesFrom source tokens begins line lexemes := by
  obtain ⟨reading, text, start⟩ := placed
  cases reading with
  | blank | comment => rfl
  | lineEnd => exact absurd rfl hreading
  | token kind => cases htrivia
  | fault fault => cases htrivia

/-- Tokens and faults show, and behind them a logical line has begun. -/
theorem entriesFrom_of_proper {source : List Char} {tokens : List Token} {begins : Bool} {line : Nat}
    {placed : PlacedLexeme} (lexemes : List PlacedLexeme) (hproper : placed.reading.isTrivia = false) :
    entriesFrom source tokens begins line (placed :: lexemes) =
      ⟨placed, if begins then some (widthAt source line) else none⟩ ::
        entriesFrom source tokens false line lexemes := by
  obtain ⟨reading, text, start⟩ := placed
  cases reading with
  | token kind => rfl
  | fault fault => rfl
  | _ => cases hproper

/-- The entries of a text. -/
def entries (source : List Char) (tokens : List Token) : List Entry :=
  entriesFrom source tokens true 0 (placedLexemes source)

/-- Tokens and faults in their places. -/
structure Outline where
  spans : List TokenSpan
  sites : List (Fault × Nat)

/-- The tokens of an outline of a text. -/
def Outline.tokensIn (source : List Char) (outline : Outline) : List Token :=
  outline.spans.map fun span =>
    ⟨span.kind, span.text, positionAt source span.start, positionAt source span.stop⟩

/-- The faults of an outline of a text. -/
def Outline.faultsIn (source : List Char) (outline : Outline) : List LocatedFault :=
  outline.sites.map fun site => ⟨site.1, positionAt source site.2⟩

/-- An outline with more tokens and faults in front. -/
def Outline.prepend (spans : List TokenSpan) (sites : List (Fault × Nat)) (outline : Outline) : Outline :=
  ⟨spans ++ outline.spans, sites ++ outline.sites⟩

/-- An outline with a lexeme in front. -/
def Outline.behind (placed : PlacedLexeme) (outline : Outline) : Outline :=
  outline.prepend placed.span?.toList placed.fault?.toList

/-- A token stands in front with the bytes that it covers. -/
@[simp] theorem Outline.behind_token (kind : Kind) (text : List Char) (start : Nat) (outline : Outline) :
    outline.behind ⟨.token kind, text, start⟩ =
      outline.prepend [⟨kind, text, start, start + byteLength text⟩] [] := rfl

/-- So does a line end. -/
@[simp] theorem Outline.behind_lineEnd (text : List Char) (start : Nat) (outline : Outline) :
    outline.behind ⟨.lineEnd, text, start⟩ =
      outline.prepend [⟨.newline, text, start, start + byteLength text⟩] [] := rfl

/-- A fault stands in front where it is. -/
@[simp] theorem Outline.behind_fault (fault : Fault) (text : List Char) (start : Nat) (outline : Outline) :
    outline.behind ⟨.fault fault, text, start⟩ = outline.prepend [] [(fault, start)] := rfl

/-- What a line of a width does to a stack: the tokens in front of it, and the stack behind. -/
def adjust (stack : List Nat) (width : Nat) : List Form × List Nat :=
  if stack.headD 0 < width then ([indentForm], width :: stack) else popWider width stack

/-- The outline of some entries in front of the end of the text. It stops at the first line whose width is not
on the stack. -/
def outlineFrom (final : Nat) (stack : List Nat) : List Entry → Outline
  | [] => ⟨(unwind stack).map (Form.markAt final), []⟩
  | ⟨placed, none⟩ :: entries => (outlineFrom final stack entries).behind placed
  | ⟨placed, some width⟩ :: entries =>
    let adjusted := adjust stack width
    let marks := adjusted.1.map (Form.markAt placed.start)
    if width ∈ adjusted.2 then ((outlineFrom final adjusted.2 entries).behind placed).prepend marks []
    else ⟨marks ++ (unwind adjusted.2).map (Form.markAt placed.start),
      [(.inconsistentDedent width stack.reverse, placed.start)]⟩

/-- The outline of a text, given which line ends are tokens. -/
def outline (source : List Char) (tokens : List Token) : Outline :=
  outlineFrom (byteLength source) [0] (entries source tokens)

section Stacks

variable {blocks closed kept : List Nat} {width : Nat}

/-- A line that is wider than the innermost block is pushed. -/
theorem adjust_of_opens (hwider : innermost blocks < width) :
    adjust (blocks ++ [0]) width = ([indentForm], width :: blocks ++ [0]) := by
  rw [adjust, headD_stack, if_pos hwider]
  rfl

/-- Any other line pops the blocks that are wider. -/
theorem adjust_of_closes (hnarrow : width ≤ innermost (closed ++ kept))
    (hclosed : ∀ level ∈ closed, width < level) (hkept : innermost kept ≤ width) :
    adjust (closed ++ kept ++ [0]) width = (closed.map fun _ => dedentForm, kept ++ [0]) := by
  rw [adjust, headD_stack, if_neg (Nat.not_lt.2 hnarrow), popWider_append hclosed hkept]

/-- The width of the innermost level is on the stack. -/
theorem innermost_mem_stack (blocks : List Nat) : innermost blocks ∈ blocks ++ [0] := by
  cases blocks with
  | nil => exact List.mem_singleton_self 0
  | cons level blocks => exact List.mem_cons_self

/-- A line that settles in a block is not wider than the innermost. -/
theorem le_innermost_append (hclosed : ∀ level ∈ closed, width < level) (hkept : width ≤ innermost kept) :
    width ≤ innermost (closed ++ kept) := by
  cases closed with
  | nil => exact hkept
  | cons level closed => exact le_of_lt (hclosed level List.mem_cons_self)

end Stacks

end Layout

namespace ScanState

open Layout

variable {source : List Char} {events new : List Event} {state next : ScanState} {lexeme : Lexeme}
  {begins : Bool} {line : Nat}

/-- What a scan knows of the logical line: in a margin, the width of the blanks behind the last line end or,
before anything else, that it stands right behind that. -/
def Outlines (source : List Char) (state : ScanState) (begins : Bool) (line : Nat) : Prop :=
  match state.mode with
  | .margin none => begins = true ∧ line = state.position.index
  | .margin (some width) => begins = true ∧ width = widthAt source line
  | .line _ => begins = false
  | .halted => False

/-- In a margin a logical line is still to begin. -/
theorem Outlines.begins_eq {measured : Option Nat} (h : Outlines source state begins line)
    (hmode : state.mode = .margin measured) : begins = true := by
  rw [Outlines, hmode] at h
  cases measured <;> exact h.1

/-- Behind a margin one has begun. -/
theorem Outlines.begins_eq_false {depth : Nat} (h : Outlines source state begins line)
    (hmode : state.mode = .line depth) : begins = false := by
  rwa [Outlines, hmode] at h

/-- What is left to read stands at the index of the state. -/
theorem Steps.widthAt_eq (h : Steps (initial source) events state) :
    widthAt source state.position.index = indentWidth (state.rest.takeWhile isBlank) := by
  obtain ⟨before, hsource, hmark⟩ := (Tracks.of_steps h).cut
  rw [widthAt, hmark.index_eq, hsource, dropBytes?_append, Option.getD_some]

/-- Where no blanks come next, the margin has the width of the line. -/
theorem Outlines.width_eq {measured : Option Nat} (h : Outlines source state begins line)
    (hsteps : Steps (initial source) events state) (hmode : state.mode = .margin measured)
    (hlexeme : classify state.rest = some lexeme) (hreading : lexeme.reading ≠ .blank) :
    measured.getD 0 = widthAt source line := by
  rw [Outlines, hmode] at h
  cases measured with
  | none => rw [h.2, hsteps.widthAt_eq, takeWhile_isBlank_of_classify hlexeme, if_neg hreading]; rfl
  | some width => exact h.2

/-- Behind a blank or a comment in a margin, the width of the line is known. -/
theorem Outlines.past_trivia {measured : Option Nat} (h : Outlines source state begins line)
    (hsteps : Steps (initial source) events state) (hmode : state.mode = .margin measured)
    (hlexeme : classify state.rest = some lexeme) (htrivia : lexeme.reading.isTrivia = true)
    (hreading : lexeme.reading ≠ .lineEnd) :
    Outlines source (state.past lexeme.text (marginBehind measured lexeme)) begins line := by
  have hbegins := h.begins_eq hmode
  obtain ⟨reading, text⟩ := lexeme
  cases reading with
  | blank =>
    refine ⟨hbegins, ?_⟩
    rw [Outlines, hmode] at h
    cases measured with
    | none => rw [h.2, hsteps.widthAt_eq, takeWhile_isBlank_of_classify hlexeme, if_pos rfl]; rfl
    | some width => exact h.2
  | comment => exact ⟨hbegins, h.width_eq hsteps hmode hlexeme nofun⟩
  | lineEnd => exact absurd rfl hreading
  | token kind => cases htrivia
  | fault fault => cases htrivia

/-- The outline of what is left to read in a state. -/
def restOutline (source : List Char) (state : ScanState) (begins : Bool) (line : Nat) : Outline :=
  outlineFrom (byteLength source) (state.blocks ++ [0])
    (entriesFrom source (tokensOf source) begins line (placeFrom state.position.index (segment state.rest)))

/-- The first of the lexemes that are left is read next. -/
theorem placeFrom_rest (hlexeme : classify state.rest = some lexeme) (mode : Mode) :
    placeFrom state.position.index (segment state.rest) =
      ⟨lexeme.reading, lexeme.text, state.position.index⟩ ::
        placeFrom (state.past lexeme.text mode).position.index
          (segment (state.past lexeme.text mode).rest) := by
  rw [segment_of_classify hlexeme, placeFrom, past, Position.index_advanceOver]

/-- Blanks and comments leave the outline as it is. -/
theorem restOutline_of_trivia (hlexeme : classify state.rest = some lexeme)
    (htrivia : lexeme.reading.isTrivia = true) (hreading : lexeme.reading ≠ .lineEnd) (mode : Mode) :
    restOutline source state begins line = restOutline source (state.past lexeme.text mode) begins line := by
  rw [restOutline, placeFrom_rest hlexeme mode, entriesFrom_of_trivia _ htrivia hreading]
  rfl

/-- A line end that is no token only moves the place where the line starts. -/
theorem restOutline_of_joined {text : List Char} (hlexeme : classify state.rest = some ⟨.lineEnd, text⟩)
    (hnone : ¬ PlacedLexeme.YieldsNewline ⟨.lineEnd, text, state.position.index⟩ (tokensOf source))
    (mode : Mode) :
    restOutline source state begins line =
      restOutline source (state.past text mode) begins (state.past text mode).position.index := by
  rw [restOutline, placeFrom_rest hlexeme mode, entriesFrom]
  dsimp only
  rw [if_neg hnone, PlacedLexeme.stop, restOutline]
  simp only [past, Position.index_advanceOver]

/-- Behind a line end that is a token a logical line is to begin. -/
theorem restOutline_of_newline {text : List Char} (hlexeme : classify state.rest = some ⟨.lineEnd, text⟩)
    (hyields : PlacedLexeme.YieldsNewline ⟨.lineEnd, text, state.position.index⟩ (tokensOf source))
    (mode : Mode) :
    restOutline source state begins line =
      (restOutline source (state.past text mode) true (state.past text mode).position.index).behind
        ⟨.lineEnd, text, state.position.index⟩ := by
  rw [restOutline, placeFrom_rest hlexeme mode, entriesFrom]
  dsimp only
  rw [if_pos hyields, outlineFrom, PlacedLexeme.stop, restOutline]
  simp only [past, Position.index_advanceOver]

/-- On a logical line tokens and faults show as they are. -/
theorem restOutline_of_proper (hlexeme : classify state.rest = some lexeme)
    (hproper : lexeme.reading.isTrivia = false) (mode : Mode) :
    restOutline source state false line =
      (restOutline source (state.past lexeme.text mode) false line).behind
        ⟨lexeme.reading, lexeme.text, state.position.index⟩ := by
  rw [restOutline, placeFrom_rest hlexeme mode, entriesFrom_of_proper _ hproper, if_neg Bool.false_ne_true,
    outlineFrom]
  rfl

section Margins

variable {measured : Option Nat} {forms : List Form} {kept : List Nat}

/-- Where a logical line begins, the stack is adjusted to its width. -/
theorem Outlines.restOutline_of_margin (h : Outlines source state begins line)
    (hsteps : Steps (initial source) events state) (hmode : state.mode = .margin measured)
    (hlexeme : classify state.rest = some lexeme) (hproper : lexeme.reading.isTrivia = false)
    (hadjust : adjust (state.blocks ++ [0]) (measured.getD 0) = (forms, kept ++ [0])) :
    restOutline source state begins line =
      if measured.getD 0 ∈ kept ++ [0] then
        (restOutline source { state with blocks := kept, mode := .line 0 } false line).prepend
          (forms.map (Form.markAt state.position.index)) []
      else ⟨forms.map (Form.markAt state.position.index) ++
          (unwind (kept ++ [0])).map (Form.markAt state.position.index),
        [(.inconsistentDedent (measured.getD 0) (levels state.blocks), state.position.index)]⟩ := by
  have hreading : lexeme.reading ≠ .blank := by
    intro hblank
    rw [hblank] at hproper
    cases hproper
  have hlevels : (state.blocks ++ [0]).reverse = levels state.blocks := by simp [levels]
  have hlexeme' : classify { state with blocks := kept, mode := .line 0 : ScanState }.rest = some lexeme :=
    hlexeme
  have hnext := @restOutline_of_proper source _ _ line hlexeme' hproper .halted
  rw [hnext, restOutline, placeFrom_rest hlexeme .halted, entriesFrom_of_proper _ hproper,
    if_pos (h.begins_eq hmode), ← h.width_eq hsteps hmode hlexeme hreading, outlineFrom, hadjust, hlevels]
  rfl

end Margins

/-- What a scan yields is what it has left behind so far, and an outline of the rest. -/
structure EndsIn (source : List Char) (events : List Event) (outline : Outline) : Prop where
  spans : (tokensOf source).map Token.span = (Event.tokens events).map Token.span ++ outline.spans
  sites : (faultsOf source).map LocatedFault.site =
    (Event.errors events).map LocatedFault.site ++ outline.sites

/-- What a step leaves behind stands in front of the outline of the rest. -/
theorem EndsIn.of_append {outline : Outline} (h : EndsIn source (events ++ new) outline) :
    EndsIn source events (outline.prepend ((Event.tokens new).map Token.span)
      ((Event.errors new).map LocatedFault.site)) where
  spans := by simp [h.spans, Outline.prepend]
  sites := by simp [h.sites, Outline.prepend]

/-- A line end yields a token where a scan is behind the margin and outside brackets. -/
theorem Steps.yieldsNewline_iff_mode {text : List Char} {mode : Mode}
    (hsteps : Steps (initial source) events state) (hstep : state.step = some (new, state.past text mode))
    (hlexeme : classify state.rest = some ⟨.lineEnd, text⟩) :
    PlacedLexeme.YieldsNewline ⟨.lineEnd, text, state.position.index⟩ (tokensOf source) ↔
      state.mode = .line 0 := by
  have hrun := hsteps.run_eq
  rw [run_of_step hstep] at hrun
  have hlater := steps_run (state.past text mode)
  rw [← congrArg Prod.snd hrun] at hlater
  have hstop : (state.past text mode).position.index =
      (PlacedLexeme.mk .lineEnd text state.position.index).stop := Position.index_advanceOver _ _
  rcases (moves_of_step hstep).yieldsNewline_cases hsteps hlexeme rfl hstop (congrArg Prod.fst hrun) hlater with
    ⟨hmode, hyields⟩ | ⟨⟨measured, hmode⟩ | ⟨depth, hdepth, hmode⟩, hnone⟩
  · exact iff_of_true hyields hmode
  · exact iff_of_false hnone (by simp [hmode])
  · exact iff_of_false hnone (by simp [hmode, hdepth])

/-- What a step yields stands in front of the outline of the state that it leads to, as long as it does not
halt. -/
theorem Outlines.step (h : Outlines source state begins line) (hsteps : Steps (initial source) events state)
    (hstep : state.step = some (new, next)) (hrunning : next.mode ≠ .halted) :
    ∃ begins' line', Outlines source next begins' line' ∧
      restOutline source state begins line =
        (restOutline source next begins' line').prepend ((Event.tokens new).map Token.span)
          ((Event.errors new).map LocatedFault.site) := by
  cases moves_of_step hstep with
  | @skipsInMargin measured lexeme hmode hlexeme htrivia =>
    by_cases hend : lexeme.reading = .lineEnd
    · obtain ⟨reading, text⟩ := lexeme
      cases hend
      have hnone := mt (hsteps.yieldsNewline_iff_mode hstep hlexeme).1 (by simp [hmode])
      exact ⟨begins, _, ⟨h.begins_eq hmode, rfl⟩, restOutline_of_joined hlexeme hnone _⟩
    · exact ⟨begins, line, h.past_trivia hsteps hmode hlexeme htrivia hend,
        restOutline_of_trivia hlexeme htrivia hend _⟩
  | opens hmode hlexeme hproper hwider =>
    refine ⟨false, line, rfl, ?_⟩
    rw [h.restOutline_of_margin hsteps hmode hlexeme hproper (adjust_of_opens hwider),
      if_pos (List.mem_append_left _ List.mem_cons_self)]
    rfl
  | @settles measured lexeme closed kept hmode hlexeme hproper hblocks hclosed hkept =>
    have hadjust := adjust_of_closes (le_innermost_append hclosed hkept.ge) hclosed hkept.le
    rw [← hblocks] at hadjust
    refine ⟨false, line, rfl, ?_⟩
    rw [h.restOutline_of_margin hsteps hmode hlexeme hproper hadjust,
      if_pos (by rw [← hkept]; exact innermost_mem_stack kept)]
    simp [Form.markAt, dedentForm]
  | misfits => exact absurd rfl hrunning
  | @skipsInLine depth lexeme hmode hlexeme htrivia hjoined =>
    by_cases hend : lexeme.reading = .lineEnd
    · have hdepth := hjoined hend
      obtain ⟨reading, text⟩ := lexeme
      cases hend
      have hnone := mt (hsteps.yieldsNewline_iff_mode hstep hlexeme).1 (by simp [hmode, hdepth])
      exact ⟨begins, _, h.begins_eq_false hmode, restOutline_of_joined hlexeme hnone _⟩
    · exact ⟨begins, line, h.begins_eq_false hmode, restOutline_of_trivia hlexeme htrivia hend _⟩
  | endsLine hmode hlexeme =>
    have hyields := (hsteps.yieldsNewline_iff_mode hstep hlexeme).2 hmode
    refine ⟨true, _, ⟨rfl, rfl⟩, ?_⟩
    rw [restOutline_of_newline hlexeme hyields (.margin none)]
    simp
  | @yields depth kind text hmode hlexeme =>
    obtain rfl := h.begins_eq_false hmode
    refine ⟨false, line, rfl, ?_⟩
    rw [restOutline_of_proper hlexeme rfl (.line (kind.nest depth))]
    simp
  | @reports depth fault text hmode hlexeme =>
    obtain rfl := h.begins_eq_false hmode
    refine ⟨false, line, rfl, ?_⟩
    rw [restOutline_of_proper hlexeme rfl (.line depth)]
    simp [LocatedFault.site]

/-- A scan that halts at a line ends in the outline that stops there. -/
theorem Outlines.endsIn_of_halted (h : Outlines source state begins line)
    (hsteps : Steps (initial source) events state) (hstep : state.step = some (new, next))
    (hhalted : next.mode = .halted) : EndsIn source events (restOutline source state begins line) := by
  have hall := hsteps.tail hstep
  cases moves_of_step hstep with
  | @misfits measured lexeme closed kept error hmode hlexeme hproper hblocks hclosed hkept hnarrow herror =>
    have hnested := (KeepsBlocks.of_steps hall).nested
    have hadjust := adjust_of_closes (hblocks ▸ hnarrow) hclosed hkept.le
    rw [← hblocks] at hadjust
    have hmem : measured.getD 0 ∉ kept ++ [0] := by
      intro hmem
      rcases List.mem_append.1 hmem with hlevel | hzero
      · exact absurd (hnested.le_innermost hlevel) (Nat.not_le.2 hkept)
      · have hzero := List.mem_singleton.1 hzero
        omega
    obtain ⟨htokens, hfaults⟩ := eq_of_steps_of_step_eq_none hall rfl
    rw [h.restOutline_of_margin hsteps hmode hlexeme hproper hadjust, if_neg hmem]
    constructor
    · rw [htokens]
      simp [unwind_stack hnested.positive, Form.markAt, dedentForm, endForm]
    · rw [hfaults]
      simp [herror, LocatedFault.site]
  | skipsInMargin =>
    obtain ⟨measured', hbehind⟩ := exists_marginBehind _ _
    rw [past, hbehind] at hhalted
    cases hhalted
  | _ => cases hhalted

/-- Where nothing is left to read, the outline is the end of the text. -/
theorem Outlines.endsIn_of_rest_eq_nil (hsteps : Steps (initial source) events state)
    (hrest : state.rest = []) : EndsIn source events (restOutline source state begins line) := by
  obtain ⟨htokens, hfaults⟩ := eq_of_steps_of_step_eq_none hsteps ((step_eq_none_iff state).2 (.inl hrest))
  have hindex : state.position.index = byteLength source := by
    obtain ⟨before, hsource, hmark⟩ := (Tracks.of_steps hsteps).cut
    rw [hmark.index_eq, hsource, hrest, List.append_nil]
  have hpositive := (KeepsBlocks.of_steps hsteps).nested.positive
  rw [restOutline, hrest, segment_nil]
  constructor
  · rw [htokens]
    simp [placeFrom, entriesFrom, outlineFrom, unwind_stack hpositive, Form.markAt, dedentForm, endForm, hindex]
  · rw [hfaults]
    simp [placeFrom, entriesFrom, outlineFrom]

/-- From every state on, a scan ends in the outline of what is left to read. -/
theorem Outlines.endsIn (h : Outlines source state begins line) (hsteps : Steps (initial source) events state) :
    EndsIn source events (restOutline source state begins line) := by
  induction state using run.induct generalizing events begins line with
  | case1 state hstep =>
    rcases (step_eq_none_iff state).1 hstep with hrest | hhalted
    · exact endsIn_of_rest_eq_nil hsteps hrest
    · rw [Outlines, hhalted] at h
      exact h.elim
  | case2 state new next hstep ih =>
    by_cases hhalted : next.mode = .halted
    · exact h.endsIn_of_halted hsteps hstep hhalted
    · obtain ⟨begins', line', hnext, houtline⟩ := h.step hsteps hstep hhalted
      rw [houtline]
      exact (ih hnext (hsteps.tail hstep)).of_append

end ScanState

/-- No lexeme reads as the token of an opened or closed block. -/
theorem kind_ne_of_mem_placedLexemes {source : List Char} {placed : PlacedLexeme} {span : TokenSpan}
    (hplaced : placed ∈ placedLexemes source) (hspan : placed.span? = some span) :
    span.kind ≠ .indent ∧ span.kind ≠ .dedent := by
  obtain ⟨reading, text, start⟩ := placed
  cases reading with
  | token kind =>
    cases hspan
    obtain ⟨window, hwindow⟩ := exists_classify_of_mem_segment (exists_of_mem_placeFrom hplaced)
    have hproper := isLayout_of_classify hwindow
    constructor <;> rintro rfl <;> cases hproper
  | lineEnd =>
    cases hspan
    exact ⟨nofun, nofun⟩
  | _ => cases hspan

/-- Tokens of a text are found from what they say besides lines and columns. -/
theorem tokensIn_eq_tokensOf {source : List Char} {outline : Layout.Outline}
    (h : outline.spans = (tokensOf source).map Token.span) : outline.tokensIn source = tokensOf source := by
  rw [Layout.Outline.tokensIn, h, List.map_map]
  refine (List.map_congr_left fun token hmem => ?_).trans (List.map_id _)
  have hplaced := isPlacedIn_of_mem_tokensOf hmem
  simp only [Function.comp_apply, Token.span, positionAt_index hplaced.start_isPlace,
    positionAt_index hplaced.stop_isPlace]
  rfl

/-- Faults of a text are found from their byte indices. -/
theorem faultsIn_eq_faultsOf {source : List Char} {outline : Layout.Outline}
    (h : outline.sites = (faultsOf source).map LocatedFault.site) :
    outline.faultsIn source = faultsOf source := by
  rw [Layout.Outline.faultsIn, h, List.map_map]
  refine (List.map_congr_left fun error hmem => ?_).trans (List.map_id _)
  simp only [Function.comp_apply, LocatedFault.site, positionAt_index (isPlaceIn_of_mem_faultsOf hmem)]
  rfl

/-- The tokens and faults of a text are those of its outline: where a logical line begins, the blocks that its
width opens or closes on the stack, and nothing behind the first width that is not on it. No lexeme opens or
closes a block by itself. -/
theorem scan_follows_outline (source : List Char) :
    tokensOf source = (Layout.outline source (tokensOf source)).tokensIn source ∧
      faultsOf source = (Layout.outline source (tokensOf source)).faultsIn source ∧
      ∀ placed ∈ placedLexemes source, ∀ span, placed.span? = some span →
        span.kind ≠ .indent ∧ span.kind ≠ .dedent := by
  have hinitial : ScanState.Outlines source (.initial source) true 0 := ⟨rfl, rfl⟩
  have hends := hinitial.endsIn .refl
  exact ⟨(tokensIn_eq_tokensOf hends.spans.symm).symm, (faultsIn_eq_faultsOf hends.sites.symm).symm,
    fun _ hplaced _ hspan => kind_ne_of_mem_placedLexemes hplaced hspan⟩

/-- The outline of lines that begin behind joined lines, behind a block comment and at an unrecognised
character, up to a width that is not on the stack. -/
theorem scan_follows_outline_of_lines :
    let source := "(\n)\n \"\"\"\n\"\"\"a\n!\n  b\n c".toList
    (Layout.outline source (tokensOf source)).tokensIn source =
        [⟨.delimiter .leftParen, ['('], ⟨1, 0, 0⟩, ⟨1, 1, 1⟩⟩,
          ⟨.delimiter .rightParen, [')'], ⟨2, 0, 2⟩, ⟨2, 1, 3⟩⟩,
          ⟨.newline, ['\n'], ⟨2, 1, 3⟩, ⟨3, 0, 4⟩⟩, ⟨.indent, [], ⟨4, 3, 12⟩, ⟨4, 3, 12⟩⟩,
          ⟨.identifier, ['a'], ⟨4, 3, 12⟩, ⟨4, 4, 13⟩⟩, ⟨.newline, ['\n'], ⟨4, 4, 13⟩, ⟨5, 0, 14⟩⟩,
          ⟨.dedent, [], ⟨5, 0, 14⟩, ⟨5, 0, 14⟩⟩, ⟨.newline, ['\n'], ⟨5, 1, 15⟩, ⟨6, 0, 16⟩⟩,
          ⟨.indent, [], ⟨6, 2, 18⟩, ⟨6, 2, 18⟩⟩, ⟨.identifier, ['b'], ⟨6, 2, 18⟩, ⟨6, 3, 19⟩⟩,
          ⟨.newline, ['\n'], ⟨6, 3, 19⟩, ⟨7, 0, 20⟩⟩, ⟨.dedent, [], ⟨7, 1, 21⟩, ⟨7, 1, 21⟩⟩,
          ⟨.endOfInput, [], ⟨7, 1, 21⟩, ⟨7, 1, 21⟩⟩] ∧
      (Layout.outline source (tokensOf source)).faultsIn source =
        [⟨.unrecognisedCharacter '!', ⟨5, 0, 14⟩⟩, ⟨.inconsistentDedent 1 [0, 2], ⟨7, 1, 21⟩⟩] ∧
      ∃ placed ∈ placedLexemes source, placed.span? = some ⟨.delimiter .leftParen, ['('], 0, 1⟩ ∧
        Kind.delimiter .leftParen ≠ .indent ∧ Kind.delimiter .leftParen ≠ .dedent := by
  intro source
  obtain ⟨htokens, hfaults, hkinds⟩ := scan_follows_outline source
  have hfirst : classify source = some ⟨.token (.delimiter .leftParen), ['(']⟩ := by decide +kernel
  have hmem : ⟨.token (.delimiter .leftParen), ['('], 0⟩ ∈ placedLexemes source := by
    rw [placedLexemes, segment_of_classify hfirst]
    exact List.mem_cons_self
  refine ⟨?_, ?_, _, hmem, rfl, hkinds _ hmem _ rfl⟩
  · rw [← htokens, tokensOf_eq_runFor]
    decide +kernel
  · rw [← hfaults, faultsOf_eq_runFor]
    decide +kernel

end Offside
