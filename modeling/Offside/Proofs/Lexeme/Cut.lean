import Offside.Proofs.Lexeme.Placed
import Offside.Proofs.Lexeme.Thinning

/-!
# Lexemes in front of a cut

A lexeme that fits in front of a cut is read there as it is read in the whole text. This holds of every
lexeme, blanks and faults included: a quote that nothing closes is closed by nothing in front of the cut
either, and a character that opens no lexeme still opens none.

With the cut right behind it, every token is read from its text alone.
-/

namespace Offside

open Text Lexeme

/-- A rule that reads something goes on doing so when the text goes on. -/
theorem Rule.isSome_apply_append {rule : Rule} {window : List Char} (h : (rule.apply window).isSome = true)
    (after : List Char) : (rule.apply (window ++ after)).isSome = true := by
  obtain ⟨lexeme, happly⟩ := Option.isSome_iff_exists.1 h
  obtain ⟨c, cs, rfl⟩ := List.exists_cons_of_ne_nil (isFront_of_apply happly).window_ne_nil
  cases takes_of_apply happly with
  | blanks htext hne =>
    have hc : isBlank c = true := of_takeWhile_cons_ne_nil (by rwa [← htext])
    simp [apply, blank?, nonempty?, hc]
  | pair hwindow =>
    cases hwindow
    rfl
  | single hwindow hend =>
    cases hwindow
    have hsome := lineEnd?_ne_none hend (cs ++ after)
    simpa [apply, Option.isSome_iff_ne_none] using hsome
  | remark hwindow =>
    cases hwindow
    rfl
  | block hwindow hquote =>
    cases hwindow
    simp [apply, comment?_of_block hquote]
  | literal hwindow hquote hclosed =>
    cases hwindow
    simp only [apply, List.cons_append, string?, hquote, if_true]
    split <;> rfl
  | unclosed hwindow hquote hopen =>
    cases hwindow
    simp only [apply, List.cons_append, string?, hquote, if_true]
    split <;> rfl
  | digits htext hne =>
    have hc : c.isDigit = true := of_takeWhile_cons_ne_nil (by rwa [← htext])
    simp [apply, number?, nonempty?, hc]
  | fraction hwhole hne hpoint hdigits hne' =>
    have hc : c.isDigit = true := of_takeWhile_cons_ne_nil (by rwa [← hwhole])
    simp [apply, number?, nonempty?, hc]
  | name hwindow hstart =>
    cases hwindow
    simp [apply, word?, hstart]
  | @operator symbol count hcount htext =>
    cases cs with
    | nil =>
      have hspelling : [c] = symbol.spelling.toList := by
        rw [← htext, List.take_of_length_le (Nat.one_le_iff_ne_zero.2 hcount)]
      have hsymbol : Operator.ofText? [c] = some symbol := Operator.ofText?_eq_some_iff.2 hspelling
      simp [apply, operator?_eq, hsymbol]
    | cons d ds =>
      have hsame : operator? (c :: d :: ds ++ after) = operator? (c :: d :: ds) := rfl
      rw [apply] at h ⊢
      rwa [hsame]
  | delimiter htext => exact h

/-- In front of a cut a text does not open with a blank, a line end or a comment unless it does so as a
whole. -/
theorem exists_proper_of_append {window after : List Char} {lexeme : Lexeme}
    (h : classify (window ++ after) = some lexeme) (htrivia : lexeme.reading.isTrivia = false)
    (hne : window ≠ []) : ∃ other, classify window = some other ∧ other.reading.isTrivia = false := by
  obtain ⟨other, hother⟩ := exists_classify_of_ne_nil hne
  refine ⟨other, hother, ?_⟩
  rcases classify_cases hother with ⟨rule, happly, -⟩ | ⟨c, cs, -, -, rfl⟩
  · rcases Rule.mem_trivia_or_proper rule with hmem | hmem
    · have hsome := Rule.isSome_apply_append (Option.isSome_iff_exists.2 ⟨other, happly⟩) after
      rw [Rule.apply_eq_none_of_mem_trivia hmem h htrivia] at hsome
      cases hsome
    · exact Rule.isTrivia_of_mem_proper hmem happly
  · rfl

/-- A quote that nothing closes is closed by nothing in front of a cut. -/
theorem Rule.apply_unclosed_of_append {quote : Char} {rest after : List Char}
    (hquote : isQuote quote = true) (hopen : Lexeme.closeString? quote (rest ++ after) = none) :
    Rule.apply (quote :: rest) .string = some ⟨.fault (.unterminatedString quote), [quote]⟩ := by
  have hnone := (closeString?_eq_none_iff (ne_backslash_of_isQuote hquote)).1 hopen
  refine (string?_eq_fault_iff hquote rest).2 fun front hfront => hnone front ?_
  exact hfront.trans (List.prefix_append (quote :: rest) after)

/-- A fault is found in front of every cut behind it. -/
theorem classify_fault_of_append {text rest after : List Char} {fault : Fault}
    (h : classify (text ++ (rest ++ after)) = some ⟨.fault fault, text⟩) :
    classify (text ++ rest) = some ⟨.fault fault, text⟩ := by
  rcases classify_cases h with ⟨rule, happly, hcomment⟩ | ⟨c, cs, hwindow, hnone, heq⟩
  · cases Rule.takes_of_apply happly with
    | @unclosed quote cs hwindow hquote hopen =>
      obtain rfl : rest ++ after = cs := (List.cons.inj hwindow).2
      refine classify_of_apply (Rule.apply_unclosed_of_append hquote hopen) fun _ => ?_
      have hblock := (Lexeme.comment?_eq_none_iff hquote _).1 (hcomment rfl)
      refine (Lexeme.comment?_eq_none_iff hquote rest).2 fun hfront => ?_
      exact hblock (hfront.trans (List.prefix_append rest after))
  · cases heq
    obtain rfl : rest ++ after = cs := (List.cons.inj hwindow).2
    obtain ⟨other, hother⟩ : ∃ other, classify (c :: rest) = some other := ⟨_, rfl⟩
    rcases classify_cases hother with ⟨rule, happly, -⟩ | ⟨d, ds, hsame, -, rfl⟩
    · have hsome := Rule.isSome_apply_append (Option.isSome_iff_exists.2 ⟨other, happly⟩) after
      exact absurd (hnone rule) (Option.isSome_iff_ne_none.1 hsome)
    · obtain rfl := (List.cons.inj hsame).1
      exact hother

/-- A lexeme that fits in front of a cut is read there without what stands behind the cut. -/
theorem classify_of_append {text rest after : List Char} {reading : Reading}
    (h : classify (text ++ (rest ++ after)) = some ⟨reading, text⟩) :
    classify (text ++ rest) = some ⟨reading, text⟩ := by
  cases reading with
  | blank =>
    obtain ⟨hblanks, hstop⟩ := blanks_of_classify h
    exact classify_blanks (isFront_of_classify h).1 hblanks fun c hc => hstop c (by simp [hc])
  | fault fault => exact classify_fault_of_append h
  | _ => exact classify_thin h (by simp) (by simp) (.of_append rest after)

/-- A token is read from its text alone. -/
theorem classify_text_of_token {window text : List Char} {kind : Kind}
    (h : classify window = some ⟨.token kind, text⟩) : classify text = some ⟨.token kind, text⟩ := by
  obtain ⟨rest, rfl⟩ := (isFront_of_classify h).2
  have halone := @classify_of_append text [] rest _ h
  rwa [List.append_nil] at halone

/-- So is every token among the lexemes of a text. -/
theorem classify_text_of_mem_segment {source text : List Char} {kind : Kind}
    (h : ⟨.token kind, text⟩ ∈ segment source) : classify text = some ⟨.token kind, text⟩ := by
  obtain ⟨window, hwindow⟩ := exists_classify_of_mem_segment h
  exact classify_text_of_token hwindow

/-! ### Cuts behind line ends -/

section Lines

variable {window after : List Char} {lexeme other : Lexeme} {quote : Char}

/-- A text that ends with a line end has all of a piece without line ends in it that stands at its front. -/
theorem isPrefix_of_ends {piece : List Char} {c : Char} (hlast : window.getLast? = some c)
    (hend : isLineEnd c = true) (h : piece <+: window ++ after) (hpiece : ∀ d ∈ piece, isLineEnd d = false) :
    piece <+: window := by
  refine (List.prefix_or_prefix_of_prefix h (List.prefix_append window after)).resolve_right fun hlonger => ?_
  have hmem : c ∈ piece := hlonger.subset (List.mem_of_getLast? hlast)
  rw [hpiece c hmem] at hend
  cases hend

/-- A block that goes beyond a text is a comment over all of the text. -/
theorem isPrefix_of_block {c : Char} {cs : List Char} (hlast : window.getLast? = some c)
    (hend : isLineEnd c = true) (h : classify window = some lexeme)
    (hcomment : lexeme.reading = .comment → lexeme.text ≠ window) (hquote : isQuote quote = true)
    (hwindow : window ++ after = quote :: quote :: quote :: cs) :
    quote :: quote :: quote :: closeBlock quote cs <+: window := by
  have hplain := isLineEnd_of_isQuote hquote
  have hopens : [quote, quote, quote] <+: window :=
    isPrefix_of_ends hlast hend ⟨cs, hwindow.symm⟩ (by simp [hplain])
  obtain ⟨inner, rfl⟩ := hopens
  obtain rfl : inner ++ after = cs := by simpa using hwindow
  have hread : classify ([quote, quote, quote] ++ inner) =
      some ⟨.comment, quote :: quote :: quote :: closeBlock quote inner⟩ := by
    refine @classify_of_apply .comment _ _ ?_ fun hstring => by cases hstring
    rw [Rule.apply]
    exact congrArg (Option.map _) (comment?_of_block hquote inner)
  rw [hread] at h
  cases h
  obtain ⟨rest, hrest⟩ := closeBlock_prefix quote inner
  have hne : closeBlock quote inner ≠ inner := fun hwhole =>
    hcomment rfl (congrArg ([quote, quote, quote] ++ ·) hwhole)
  have hclosed := closeBlock_append hne (rest ++ after)
  rw [← List.append_assoc, hrest] at hclosed
  rw [hclosed]
  exact ⟨rest, congrArg ([quote, quote, quote] ++ ·) hrest⟩

/-- A literal that goes beyond a text is left open by the text. -/
theorem isPrefix_of_literal {cs body : List Char} (hne : window ≠ []) (h : classify window = some lexeme)
    (hfault : ∀ fault, lexeme.reading ≠ .fault fault) (hquote : isQuote quote = true)
    (hwindow : window ++ after = quote :: cs) (hclosed : closeString? quote cs = some body)
    (hcomment : comment? (window ++ after) = none) : quote :: body <+: window := by
  obtain ⟨d, inner, rfl⟩ := List.exists_cons_of_ne_nil hne
  obtain rfl : quote = d := (List.cons.inj hwindow).1.symm
  obtain rfl : inner ++ after = cs := (List.cons.inj hwindow).2
  have hslash := ne_backslash_of_isQuote hquote
  have hcomment' : comment? (quote :: inner) = none := by
    rw [List.cons_append, comment?_eq_none_iff hquote] at hcomment
    exact (comment?_eq_none_iff hquote inner).2 fun hblock => hcomment (hblock.trans (List.prefix_append _ _))
  cases hbody : closeString? quote inner with
  | none =>
    have hopen : Rule.apply (quote :: inner) .string =
        some ⟨.fault (.unterminatedString quote), [quote]⟩ := by
      simp [Rule.apply, string?, hquote, hbody]
    rw [classify_of_apply hopen fun _ => hcomment'] at h
    cases h
    exact absurd rfl (hfault _)
  | some body' =>
    have hsame := closeString?_append hslash hbody after
    rw [hclosed] at hsame
    obtain rfl := Option.some.inj hsame
    exact List.cons_prefix_cons.2 ⟨rfl, prefix_of_closeString? hbody⟩

/-- Behind a line end a text can go on, and its first lexeme stays the same, unless that is a comment over all
of the text or a literal that nothing closes. -/
theorem classify_append_of_ends {c : Char} (hlast : window.getLast? = some c) (hend : isLineEnd c = true)
    (hwhole : ¬ CutsPair window after) (h : classify window = some lexeme)
    (hfault : ∀ fault, lexeme.reading ≠ .fault fault)
    (hcomment : lexeme.reading = .comment → lexeme.text ≠ window) :
    classify (window ++ after) = some lexeme := by
  have hne := (isFront_of_classify h).window_ne_nil
  obtain ⟨other, hother⟩ := exists_classify_of_ne_nil (List.append_ne_nil_of_left_ne_nil hne after)
  -- the lexeme of the longer text fits in the text, so it is read there as well
  suffices hfits : other.text <+: window by
    obtain ⟨rest, rfl⟩ := hfits
    rw [List.append_assoc] at hother
    rw [List.append_assoc, hother, ← h]
    exact (classify_of_append hother).symm
  obtain ⟨-, hfront⟩ := isFront_of_classify hother
  have hsingle : ∀ d, [d] <+: window ++ after → [d] <+: window := fun d hd =>
    List.prefix_of_prefix_length_le hd (List.prefix_append window after) (List.length_pos_iff.2 hne)
  rcases classify_cases hother with ⟨rule, happly, hstring⟩ | ⟨d, ds, hwindow, -, rfl⟩
  · by_cases hmem : rule ∈ Rule.withinLine
    · exact isPrefix_of_ends hlast hend hfront (Rule.isLineEnd_of_apply hmem happly)
    cases Rule.takes_of_apply happly with
    | pair hwindow =>
      match window with
      | [] => exact absurd rfl hne
      | [d] =>
        obtain ⟨rfl, rfl⟩ := List.cons.inj hwindow
        exact absurd ⟨rfl, rfl⟩ hwhole
      | d :: e :: ds =>
        obtain ⟨rfl, hrest⟩ := List.cons.inj hwindow
        obtain ⟨rfl, -⟩ := List.cons.inj hrest
        exact ⟨ds, rfl⟩
    | single hwindow => exact hsingle _ hfront
    | remark hwindow =>
      refine isPrefix_of_ends hlast hend hfront (List.forall_mem_cons.2 ⟨rfl, ?_⟩)
      exact fun d hd => by simpa using List.mem_takeWhile_imp hd
    | block hwindow hquote => exact isPrefix_of_block hlast hend h hcomment hquote hwindow
    | literal hwindow hquote hclosed =>
      exact isPrefix_of_literal hne h hfault hquote hwindow hclosed (hstring rfl)
    | unclosed hwindow hquote hopen => exact hsingle _ hfront
    | _ => exact absurd (by decide) hmem
  · exact hsingle d hfront

end Lines

end Offside
