import Offside.Proofs.Lexeme.Cut
import Offside.Proofs.Lexeme.LineEnding
import Offside.Proofs.Scan.Rewriting
import Offside.Proofs.Scan.Segmentation

/-!
# Scans with other line ends

A text without carriage returns can have other ends for its lines. With carriage returns, its analysis stays
the same to the last position, and only the texts of tokens have them too. With pairs, byte indices grow,
while lines and columns, kinds and faults stay, as long as no literal runs over a line end.

A literal that does so is left open by pairs. The two texts are then never analysed alike, so where literals
stay on their lines is exactly where pairs do not matter.
-/

namespace Offside

open Text

variable {ending : LineEnding} {source : List Char}

/-- The position that stands for another with other line ends. Pairs take more bytes. -/
def Text.LineEnding.places : LineEnding → Position → Position → Prop
  | .single, p, q => q = p
  | .pair, p, q => p.Beside q

/-- Exchanging line ends, where no literal is left open. -/
def Rewriting.lineEnds (ending : LineEnding) : Rewriting where
  text := endLines ending
  covers text := '\r' ∉ text
  keeps kind text := kind = .string → ending.spares text = true
  places := ending.places
  append := endLines_append
  covers_append h := by simpa [not_or] using h
  blanks h := endLines_eq_self fun hmem => by cases h _ hmem
  advance hpiece hplaces := by
    cases ending with
    | single => rw [hplaces, Position.advanceOver_endLines hpiece, LineEnding.places]
    | pair => exact hplaces.endLines hpiece
  proper hwindow hlexeme htrivia := by
    refine ⟨_, by rw [classify_endLines hwindow, hlexeme]; rfl, ?_⟩
    rw [Lexeme.isTrivia_endLines, htrivia]
  reads {window lexeme} hwindow hlexeme hkeeps := by
    rw [classify_endLines hwindow, hlexeme, Option.map_some]
    by_cases hstring : lexeme.reading = .token .string
    · rw [Lexeme.endLines_of_spares (hkeeps _ hstring rfl)]
    · rw [Lexeme.endLines_of_ne hstring]

/-- A token with other line ends in its text. -/
def Token.endLines (ending : LineEnding) (token : Token) : Token :=
  { token with text := Text.endLines ending token.text }

/-- An analysis with each of its tokens changed. -/
def mapTokens (f : Token → Token) : Except Failure (List Token) → Except Failure (List Token)
  | .ok tokens => .ok (tokens.map f)
  | .error failure => .error { failure with tokens := failure.tokens.map f }

/-- Tokens that stand for tokens, with carriage returns, are these up to their texts. -/
theorem Rewriting.OfToken.eq_endLines {a b : Token} (h : (Rewriting.lineEnds .single).OfToken a b) :
    a.endLines .single = b := by
  obtain ⟨kind, text, start, stop⟩ := a
  obtain ⟨kind', text', start', stop'⟩ := b
  obtain rfl : kind' = kind := h.kind
  obtain rfl : text' = endLines .single text := h.text
  obtain rfl : start' = start := h.start
  obtain rfl : stop' = stop := h.stop
  rfl

/-- Faults that stand for faults, with carriage returns, are these. -/
theorem Rewriting.OfFault.eq {a b : LocatedFault} (h : (Rewriting.lineEnds .single).OfFault a b) : a = b := by
  obtain ⟨fault, position⟩ := a
  obtain ⟨fault', position'⟩ := b
  obtain rfl : fault' = fault := h.fault
  obtain rfl : position' = position := h.position
  rfl

/-- A text with carriage returns in place of its line feeds has the same analysis, but that the texts of its
tokens have them too. -/
theorem analyze_endLines_single (h : '\r' ∉ source) :
    analyze (endLines .single source) = mapTokens (Token.endLines .single) (analyze source) := by
  obtain ⟨htokens, hfaults⟩ := (Rewriting.lineEnds .single).ofEvents_scan h rfl fun _ _ _ => rfl
  have htokens' : (tokensOf source).map (Token.endLines .single) = tokensOf (endLines .single source) :=
    map_eq_of_forall₂ htokens fun _ _ => Rewriting.OfToken.eq_endLines
  have hfaults' : (faultsOf source).map id = faultsOf (endLines .single source) :=
    map_eq_of_forall₂ hfaults fun _ _ => Rewriting.OfFault.eq
  rw [List.map_id] at hfaults'
  rw [analyze_eq, analyze_eq, ← htokens', ← hfaults']
  split <;> rfl

/-- A text with a literal over two lines, a block over two lines, an open literal and a blank line. -/
theorem analyze_endLines_single_of_escapes :
    analyze "if x:\r\r  \"a\\\rb\" \"\"\"\r\"\"\"\r'\r".toList =
      mapTokens (Token.endLines .single) (analyze "if x:\n\n  \"a\\\nb\" \"\"\"\n\"\"\"\n'\n".toList) :=
  @analyze_endLines_single "if x:\n\n  \"a\\\nb\" \"\"\"\n\"\"\"\n'\n".toList (by decide)

/-- A text with pairs in place of its line feeds is analysed like the text. Byte indices aside, it has the
same answer, the same tokens on the same lines and columns, with pairs in their texts, and the same faults
there. -/
structure PairsReadAlike (source : List Char) : Prop where
  answers : (analyze (endLines .pair source)).isOk = (analyze source).isOk
  tokens : List.Forall₂ (fun token other => other.kind = token.kind ∧ other.text = endLines .pair token.text ∧
    token.start.Beside other.start ∧ token.stop.Beside other.stop)
      (tokensOf source) (tokensOf (endLines .pair source))
  faults : List.Forall₂ (fun error other => other.fault = error.fault ∧ error.position.Beside other.position)
    (faultsOf source) (faultsOf (endLines .pair source))

/-- A literal that runs over a line end is left open when pairs end the lines. -/
theorem classify_endLines_pair_of_literal {text : List Char} (htext : '\r' ∉ text) (hfeed : '\n' ∈ text)
    (h : classify text = some ⟨.token .string, text⟩) :
    ∃ quote, classify (endLines .pair text) = some ⟨.fault (.unterminatedString quote), [quote]⟩ := by
  obtain ⟨quote, body, rfl⟩ := List.exists_cons_of_ne_nil (List.ne_nil_of_mem hfeed)
  have hbody : '\n' ∈ body := by
    refine (List.mem_cons.1 hfeed).resolve_left fun hquote => ?_
    subst hquote
    rw [classify_lineFeed] at h
    cases h
  have hopen : LineEnding.spares .pair body = false := by simpa [LineEnding.spares] using hbody
  refine ⟨quote, ?_⟩
  rw [classify_endLines htext, h, Option.map_some, Lexeme.endLines, hopen]
  rfl

/-- Pairs in place of line feeds leave the analysis of a text as it is exactly when none of its literals runs
over a line end. -/
theorem pairsReadAlike_iff (h : '\r' ∉ source) :
    PairsReadAlike source ↔ ∀ token ∈ tokensOf source, token.kind = .string → '\n' ∉ token.text := by
  constructor
  · intro hpairs token htoken hstring hfeed
    have hlexeme := mem_segment_of_mem_tokensOf htoken (by rw [hstring]; rfl)
    obtain ⟨other, hother, hkind, htext⟩ : ∃ other ∈ tokensOf (endLines .pair source),
        other.kind = token.kind ∧ other.text = endLines .pair token.text := by
      obtain ⟨place, hplace, rfl⟩ := List.mem_iff_getElem.1 htoken
      have hsame := hpairs.tokens.get hplace (hpairs.tokens.length_eq ▸ hplace)
      exact ⟨_, List.get_mem _ _, hsame.1, hsame.2.1⟩
    have hlexeme' := mem_segment_of_mem_tokensOf hother (by rw [hkind, hstring]; rfl)
    rw [hkind, htext, hstring] at hlexeme'
    rw [hstring] at hlexeme
    -- the token of the text with pairs would be read from its own text as a literal
    obtain ⟨quote, hopen⟩ := classify_endLines_pair_of_literal
      (fun hmem => h (subset_of_mem_segment hlexeme hmem)) hfeed (classify_text_of_mem_segment hlexeme)
    rw [classify_text_of_mem_segment hlexeme'] at hopen
    cases hopen
  · intro hlines
    obtain ⟨htokens, hfaults⟩ := (Rewriting.lineEnds .pair).ofEvents_scan h ⟨rfl, rfl⟩
      fun token htoken hstring => by simpa [LineEnding.spares] using hlines token htoken hstring
    refine ⟨?_, htokens.imp fun _ _ hof => ⟨hof.kind, hof.text, hof.start, hof.stop⟩,
      hfaults.imp fun _ _ hof => ⟨hof.fault, hof.position⟩⟩
    rw [isOk_analyze, isOk_analyze, Bool.eq_iff_iff, List.isEmpty_iff_length_eq_zero,
      List.isEmpty_iff_length_eq_zero, hfaults.length_eq]
    rfl

/-- A text with blocks over two lines, an open literal and an escaped quote, whose analysis pairs leave as
it is. -/
theorem pairsReadAlike_of_blocks : PairsReadAlike "if x:\n  \"a\\\"\" \"\"\"\n\"\"\"\n 'b\n".toList := by
  refine (pairsReadAlike_iff (by decide)).2 ?_
  rw [tokensOf_eq_runFor]
  decide +kernel

/-- A literal over two lines, which is read with line feeds and left open with pairs. -/
theorem not_pairsReadAlike_of_escaped_lineFeed : ¬ PairsReadAlike "\"a\\\nb\"\n".toList := by
  intro hpairs
  have hanswers := hpairs.answers
  rw [isOk_analyze, isOk_analyze, faultsOf_eq_runFor, faultsOf_eq_runFor] at hanswers
  revert hanswers
  decide +kernel

end Offside
