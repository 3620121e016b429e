import Offside.Proofs.Layout.Reading
import Offside.Proofs.Lexeme.Thinning
import Offside.Proofs.Scan.Accounts

/-!
# Gaps between words

What stands between two tokens does not matter to the tokens. Gaps hold blanks and closed blocks, and as
long as a bracket is open also line ends and the comments in front of them. However they are made up, a text
of words with gaps between them is read as its words, each where it was written, and nothing else.

A gap is read in other pieces than it is made of: a run of blanks is one lexeme, and so are the two halves of
a line end. Behind the first lexeme there is a gap again, only shorter, and the proof goes down on this.
-/

namespace Offside

open Text Lexeme

namespace Lexeme

/-- A block is closed by the first three quotes in a row behind those that open it. -/
theorem closeBlock_of_closed {quote : Char} {inner : List Char}
    (hopen : ¬ List.replicate 3 quote <:+: inner ++ [quote, quote]) (rest : List Char) :
    closeBlock quote (inner ++ List.replicate 3 quote ++ rest) = inner ++ List.replicate 3 quote := by
  refine closeBlock_eq_of_isLeastFront
    ⟨List.prefix_append _ rest, List.suffix_append inner _, fun other hother hquotes => ?_⟩
  rcases List.prefix_or_prefix_of_prefix hother (List.prefix_append _ rest) with hshort | hlong
  · -- a shorter beginning with three quotes at its end would have them in front of the last quote
    have hlast : inner ++ List.replicate 3 quote = inner ++ [quote, quote] ++ [quote] := by simp [List.replicate]
    rw [hlast, List.prefix_concat_iff] at hshort
    rcases hshort with rfl | hshort
    · exact hlast ▸ List.prefix_refl _
    · exact absurd (hquotes.isInfix.trans hshort.isInfix) hopen
  · exact hlong

end Lexeme

namespace Layout

/-- What a gap can hold while a number of brackets is open. -/
inductive Fills (depth : Nat) : List Char → Prop where
  | nil : Fills depth []
  | blank {c : Char} {gap : List Char} (hblank : isBlank c = true) (hgap : Fills depth gap) :
      Fills depth (c :: gap)
  /-- A block whose three quotes are found behind those that open it for the first time at its end. -/
  | block {quote : Char} {inner gap : List Char} (hquote : isQuote quote = true)
      (hopen : ¬ List.replicate 3 quote <:+: inner ++ [quote, quote]) (hgap : Fills depth gap) :
      Fills depth (List.replicate 3 quote ++ inner ++ List.replicate 3 quote ++ gap)
  | lineEnd {c : Char} {gap : List Char} (hdepth : depth ≠ 0) (hend : isLineEnd c = true)
      (hgap : Fills depth gap) : Fills depth (c :: gap)
  /-- A comment and the line end behind it. -/
  | remark {c : Char} {gap : List Char} (hdepth : depth ≠ 0) (remark : Remark) (hend : isLineEnd c = true)
      (hgap : Fills depth gap) : Fills depth ('#' :: remark.text ++ c :: gap)

/-- What stands between two words: it opens with a blank, or inside brackets with a line end. -/
structure Gap (depth : Nat) where
  text : List Char
  fills : Fills depth text
  separates : ∃ c cs, text = c :: cs ∧ (isBlank c = true ∨ depth ≠ 0 ∧ isLineEnd c = true)

/-- Words behind another word, each with a gap in front of it, where a number of brackets is open. -/
inductive Chain : Nat → Type where
  | nil {depth : Nat} : Chain depth
  | cons {depth : Nat} (gap : Gap depth) (word : Word) (chain : Chain (bracketDepth depth word.kind)) :
      Chain depth

/-- The text of a chain. -/
def Chain.text {depth : Nat} : Chain depth → List Char
  | .nil => []
  | .cons gap word chain => gap.text ++ (word.text ++ chain.text)

/-- The token of a word that stands at a byte index. -/
def Word.spanAt (word : Word) (start : Nat) : TokenSpan :=
  ⟨word.kind, word.text, start, start + byteLength word.text⟩

/-- The tokens of the words of a chain that stands at a byte index. -/
def Chain.spans {depth : Nat} (start : Nat) : Chain depth → List TokenSpan
  | .nil => []
  | .cons gap word chain =>
    let place := start + byteLength gap.text
    word.spanAt place :: chain.spans (place + byteLength word.text)

section Fills

variable {depth : Nat} {gap after : List Char}

/-- Without the blanks at its front, a gap is a gap. -/
theorem Fills.dropWhile_isBlank (h : Fills depth gap) : Fills depth (gap.dropWhile isBlank) := by
  induction h with
  | nil => exact .nil
  | blank hblank hgap ih => rwa [List.dropWhile_cons_of_pos hblank]
  | @block quote inner gap hquote hopen hgap ih =>
    have hother : ¬ isBlank quote = true := by simp [isBlank_of_isQuote hquote]
    have hsame : (List.replicate 3 quote ++ inner ++ List.replicate 3 quote ++ gap).dropWhile isBlank =
        List.replicate 3 quote ++ inner ++ List.replicate 3 quote ++ gap :=
      List.dropWhile_cons_of_neg hother
    rw [hsame]
    exact .block hquote hopen hgap
  | @lineEnd c gap hdepth hend hgap ih =>
    by_cases hblank : isBlank c = true
    · rwa [List.dropWhile_cons_of_pos hblank]
    · rw [List.dropWhile_cons_of_neg hblank]
      exact .lineEnd hdepth hend hgap
  | remark hdepth remark hend hgap ih => exact .remark hdepth remark hend hgap

/-- Behind a line feed at its front, a gap is a gap. -/
theorem Fills.of_lineFeed (h : Fills depth ('\n' :: gap)) : Fills depth gap := by
  generalize htext : '\n' :: gap = text at h
  cases h with
  | nil => cases htext
  | blank hblank hgap =>
    cases htext
    exact hgap
  | block hquote hopen hgap =>
    rw [← (List.cons.inj htext).1] at hquote
    cases hquote
  | lineEnd hdepth hend hgap =>
    cases htext
    exact hgap
  | remark => cases htext

/-- A line end in a gap is read alone or with its other half. -/
theorem Fills.exists_lineEnd {c : Char} (hend : isLineEnd c = true) (h : Fills depth gap)
    (hafter : Resumes after) :
    ∃ text rest, c :: gap = text ++ rest ∧ text ≠ [] ∧ Fills depth rest ∧
      classify (c :: gap ++ after) = some ⟨.lineEnd, text⟩ := by
  by_cases hpair : CutsPair [c] (gap ++ after)
  · obtain ⟨hreturn, hfeed⟩ := hpair
    obtain rfl : c = '\r' := Option.some.inj hreturn
    -- the line feed belongs to the gap, since no word opens with one
    cases gap with
    | nil => exact absurd (hafter '\n' hfeed).2 (by decide)
    | cons d gap =>
      obtain rfl : d = '\n' := Option.some.inj hfeed
      exact ⟨['\r', '\n'], gap, rfl, List.cons_ne_nil _ _, h.of_lineFeed,
        @classify_of_apply .lineEnd _ _ rfl nofun⟩
  · refine ⟨[c], gap, rfl, List.cons_ne_nil _ _, h, @classify_of_apply .lineEnd _ _ ?_ nofun⟩
    rw [Rule.apply, List.cons_append, lineEnd?_of_single hend hpair]
    rfl

/-- A gap opens with a lexeme that separates tokens, and behind it there is a gap again. -/
theorem Fills.exists_lexeme (h : Fills depth gap) (hne : gap ≠ []) (hafter : Resumes after) :
    ∃ reading text rest, gap = text ++ rest ∧ text ≠ [] ∧ Fills depth rest ∧
      classify (gap ++ after) = some ⟨reading, text⟩ ∧ reading.isTrivia = true ∧
      (reading = .lineEnd → depth ≠ 0) := by
  have hwhole := h
  cases h with
  | nil => exact absurd rfl hne
  | @blank c gap hblank hgap =>
    have hrun : (c :: gap).takeWhile isBlank ≠ [] := by simp [hblank]
    have hstop : ∀ d, ((c :: gap).dropWhile isBlank ++ after).head? = some d → isBlank d = false := by
      intro d hd
      cases hrest : (c :: gap).dropWhile isBlank with
      | nil =>
        rw [hrest] at hd
        exact (hafter d hd).1
      | cons e rest =>
        rw [hrest] at hd
        exact head?_dropWhile_eq_false isBlank (c :: gap) d (by rwa [hrest])
    have hclassify := classify_blanks hrun (fun d hd => List.mem_takeWhile_imp hd) hstop
    rw [← List.append_assoc, List.takeWhile_append_dropWhile] at hclassify
    exact ⟨.blank, _, _, List.takeWhile_append_dropWhile.symm, hrun, hwhole.dropWhile_isBlank, hclassify,
      rfl, nofun⟩
  | @block quote inner gap hquote hopen hgap =>
    refine ⟨.comment, _, gap, rfl, by simp, hgap, @classify_of_apply .comment _ _ ?_ nofun, rfl, nofun⟩
    have hblock := comment?_of_block hquote (inner ++ List.replicate 3 quote ++ (gap ++ after))
    rw [closeBlock_of_closed hopen] at hblock
    simpa [Rule.apply] using hblock
  | lineEnd hdepth hend hgap =>
    obtain ⟨text, rest, hsplit, htext, hrest, hclassify⟩ := hgap.exists_lineEnd hend hafter
    exact ⟨.lineEnd, text, rest, hsplit, htext, hrest, hclassify, rfl, fun _ => hdepth⟩
  | @remark c gap hdepth remark hend hgap =>
    have hclassify : classify ('#' :: remark.text ++ (c :: gap ++ after)) =
        some ⟨.comment, '#' :: remark.text⟩ :=
      classify_comment remark.closed (forall_head?_cons (q := (isLineEnd · = true)) hend _)
    rw [← List.append_assoc] at hclassify
    exact ⟨.comment, _, _, rfl, List.cons_ne_nil _ _, .lineEnd hdepth hend hgap, hclassify, rfl, nofun⟩

/-- Between words, a gap is read and nothing comes of it. -/
theorem reads_gap {gap : List Char} (h : Fills depth gap) (hafter : Resumes after) (blocks : List Nat) :
    Reads ⟨gap ++ after, blocks, .line depth⟩ [] ⟨after, blocks, .line depth⟩ := by
  by_cases hne : gap = []
  · subst hne
    exact .refl _
  · obtain ⟨reading, text, rest, hsplit, htext, hrest, hclassify, htrivia, hjoined⟩ :=
      h.exists_lexeme hne hafter
    have hshorter : rest.length < gap.length := by
      have hpositive := List.length_pos_iff.2 htext
      rw [hsplit, List.length_append]
      omega
    rw [hsplit, List.append_assoc] at hclassify ⊢
    exact (reads_of_skipped hclassify htrivia hjoined).trans (reads_gap hrest hafter blocks)
termination_by gap.length

end Fills

section Chains

variable {depth : Nat} {source before : List Char} {events : List Event} {position : Position}

/-- What follows a word in a chain separates it from the next. -/
theorem Chain.separates (chain : Chain depth) : Separates chain.text := by
  cases chain with
  | nil => exact nofun
  | cons gap word chain =>
    obtain ⟨c, cs, htext, hc⟩ := gap.separates
    rw [Chain.text, htext, List.cons_append]
    exact forall_head?_cons (q := fun c => isBlank c = true ∨ isLineEnd c = true) (hc.imp_right And.right) _

/-- A word is read at its place. -/
theorem spans_of_word {word : Word} {blocks : List Nat} (after : List Char) (hafter : Separates after)
    (hsource : source = before ++ (word.text ++ after))
    (hsteps : ScanState.Steps (.initial source) events
      (View.stateAt ⟨word.text ++ after, blocks, .line depth⟩ position)) :
    ∃ events' position', ScanState.Steps (.initial source) events'
        (View.stateAt ⟨after, blocks, .line (bracketDepth depth word.kind)⟩ position') ∧
      (Event.tokens events').map Token.span =
        (Event.tokens events).map Token.span ++ [word.spanAt (byteLength before)] ∧
      Event.errors events' = Event.errors events := by
  have hstep := @ScanState.step_of_line (View.stateAt ⟨word.text ++ after, blocks, .line depth⟩ position)
    depth _ rfl (word.classify_append hafter)
  simp only [ScanState.readLine, stateAt_past, ← bracketDepth_eq] at hstep
  refine ⟨_, _, hsteps.tail hstep, ?_, by simp [View.stateAt]⟩
  have hplace : position.index = byteLength before := by
    rw [position_eq_of_steps hsource hsteps, Position.index_advanceOver]
    exact Nat.zero_add _
  simp [View.stateAt, Word.spanAt, hplace]

/-- A scan in front of a chain yields the words of the chain and the end of input, and reports nothing. -/
theorem spans_of_chain (chain : Chain depth) (hsource : source = before ++ chain.text)
    (hsteps : ScanState.Steps (.initial source) events
      (View.stateAt ⟨chain.text, [], .line depth⟩ position)) :
    (tokensOf source).map Token.span = (Event.tokens events).map Token.span ++
        chain.spans (byteLength before) ++ [⟨.endOfInput, [], byteLength source, byteLength source⟩] ∧
      faultsOf source = Event.errors events := by
  induction chain generalizing before events position with
  | nil =>
    obtain ⟨htokens, hfaults⟩ := eq_of_steps_of_step_eq_none hsteps rfl
    have hend : position.index = byteLength source := by
      rw [position_eq_of_steps hsource hsteps, Position.index_advanceOver, hsource, Chain.text, List.append_nil]
      exact Nat.zero_add _
    refine ⟨?_, hfaults⟩
    rw [htokens]
    simp [View.stateAt, Chain.spans, hend]
  | cons gap word chain ih =>
    obtain ⟨between, position', hgap, hforms, herrors⟩ :=
      reads_gap gap.fills (word.resumes chain.text) [] position
    have hbehind : source = (before ++ gap.text) ++ (word.text ++ chain.text) := by
      rw [hsource, Chain.text, List.append_assoc]
    obtain ⟨events', position'', hsteps', htokens, hfaults⟩ :=
      spans_of_word chain.text chain.separates hbehind (hsteps.trans hgap)
    have hnext : source = (before ++ gap.text ++ word.text) ++ chain.text := by
      rw [hbehind, List.append_assoc _ word.text]
    obtain ⟨hlater, hlater'⟩ := ih hnext hsteps'
    have hnone : Event.tokens between = [] := List.map_eq_nil_iff.1 hforms
    constructor
    · rw [hlater, htokens, Event.tokens_append, hnone]
      simp [Chain.spans, Nat.add_assoc]
    · rw [hlater', hfaults, Event.errors_append, herrors, List.append_nil]

end Chains

/-- Words with gaps between them are read as these words, each where it was written, and nothing else:
neither a line end inside brackets nor what stands in a gap yields a token or a fault. -/
theorem analyze_words_with_gaps (word : Word) (chain : Chain (bracketDepth 0 word.kind)) :
    ∃ tokens, analyze (word.text ++ chain.text) = .ok tokens ∧
      tokens.map Token.span = word.spanAt 0 :: chain.spans (byteLength word.text) ++
        [⟨.endOfInput, [], byteLength (word.text ++ chain.text), byteLength (word.text ++ chain.text)⟩] := by
  have hshift : shift [] ((none : Option Nat).getD 0) = .settles [] [] := by decide
  have hmargin := reads_dedents (word.classify_append chain.separates) rfl hshift
  obtain ⟨margin, position, henter, hforms, herrors⟩ := hmargin .start
  obtain ⟨events, position', hsteps, htokens, hfaults⟩ :=
    @spans_of_word 0 _ [] margin position word [] chain.text chain.separates rfl henter
  obtain ⟨hspans, hreported⟩ := @spans_of_chain _ _ word.text events position' chain rfl hsteps
  refine ⟨_, analyze_eq_ok_iff.2 ⟨by rw [hreported, hfaults, herrors], rfl⟩, ?_⟩
  have hnone : Event.tokens margin = [] := List.map_eq_nil_iff.1 hforms
  rw [hspans, htokens, hnone]
  rfl

/-- Inside brackets, a block next to the quote of a string, and a comment between two line ends. -/
theorem analyze_words_with_gaps_in_brackets :
    ∃ tokens, analyze "( \"\"\"x\"\"\"'a'\r\n# y\n)".toList = .ok tokens ∧
      tokens.map Token.span = [⟨.delimiter .leftParen, ['('], 0, 1⟩, ⟨.string, ['\'', 'a', '\''], 9, 12⟩,
        ⟨.delimiter .rightParen, [')'], 18, 19⟩, ⟨.endOfInput, [], 19, 19⟩] := by
  let opening : Word := ⟨.delimiter .leftParen, ['('], by decide⟩
  let inside : Word := ⟨.string, ['\'', 'a', '\''], by decide⟩
  let closing : Word := ⟨.delimiter .rightParen, [')'], by decide⟩
  have hblock : Fills 1 (' ' :: (List.replicate 3 '"' ++ ['x'] ++ List.replicate 3 '"' ++ [])) :=
    .blank rfl (.block rfl (by decide) .nil)
  have hlines : Fills 1 ('\r' :: '\n' :: ('#' :: [' ', 'y'] ++ '\n' :: [])) :=
    .lineEnd (by decide) rfl (.lineEnd (by decide) rfl
      (.remark (by decide) ⟨[' ', 'y'], by simp [isLineEnd]⟩ rfl .nil))
  let chain : Chain (bracketDepth 0 opening.kind) := .cons ⟨_, hblock, ' ', _, rfl, .inl rfl⟩ inside
    (.cons ⟨_, hlines, '\r', _, rfl, .inr ⟨by decide, rfl⟩⟩ closing .nil)
  have htext : opening.text ++ chain.text = "( \"\"\"x\"\"\"'a'\r\n# y\n)".toList := by
    simp [opening, inside, closing, chain, Chain.text]
  have hspans : chain.spans 1 =
      [⟨.string, ['\'', 'a', '\''], 9, 12⟩, ⟨.delimiter .rightParen, [')'], 18, 19⟩] := by
    simp [inside, closing, chain, Chain.spans, Word.spanAt, Char.utf8Size]
  have hresult := analyze_words_with_gaps opening chain
  have hend : byteLength (opening.text ++ chain.text) = 19 := by rw [htext]; decide +kernel
  have hfirst : byteLength opening.text = 1 := by decide
  rw [hend, hfirst, hspans, htext] at hresult
  exact hresult

end Layout

end Offside
