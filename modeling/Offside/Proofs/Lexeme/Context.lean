import Offside.Proofs.Lexeme.Boundary

/-!
# Lexemes in context

A token that is read from its text alone is also read from the front of a longer text, whatever stands
behind it, as long as a blank or a line end comes first. No name, number, operator or string can then go
on beyond the text, and two quotes cannot grow to the three that open a block.

Blanks, comments and line ends have a context of their own that they end in.
-/

namespace Offside

open Text

/-- Whether a text is empty or opens with a character that separates tokens. -/
def Separates (rest : List Char) : Prop :=
  ∀ c, rest.head? = some c → isBlank c = true ∨ isLineEnd c = true

/-- The characters that separate tokens. -/
def separators : List Char := [' ', '\t', '\x0c', '\n', '\r']

/-- A separating text opens with one of a few characters. -/
theorem Separates.mem_separators {c : Char} {cs : List Char} (h : Separates (c :: cs)) :
    c ∈ separators := by
  have hc := h c rfl
  simp only [isBlank, isLineEnd, Bool.or_eq_true, beq_iff_eq] at hc
  simp only [separators, List.mem_cons, List.not_mem_nil, or_false]
  tauto

/-- No separator belongs to a class of characters that none of the few is in. -/
theorem Separates.eq_false {p : Char → Bool} {rest : List Char} (h : Separates rest)
    (hp : separators.all (fun c => !p c) = true) : ∀ c, rest.head? = some c → p c = false := by
  intro c hc
  obtain ⟨cs, rfl⟩ := List.head?_eq_some_iff.1 hc
  simpa using List.all_eq_true.1 hp c h.mem_separators

/-- No operator is spelled with a separator. -/
theorem Operator.ofText?_eq_none_of_mem {text : List Char} {c : Char} (hc : c ∈ separators) (hmem : c ∈ text) :
    ofText? text = none := by
  by_contra hne
  obtain ⟨symbol, hsymbol⟩ := Option.ne_none_iff_exists'.1 hne
  rw [ofText?_eq_some_iff.1 hsymbol] at hmem
  have hspelling : (symbol.spelling.toList.all fun d => !separators.contains d) = true := by
    cases symbol <;> decide
  have hother := List.all_eq_true.1 hspelling c hmem
  exact absurd hc (by simpa using hother)

namespace Lexeme

/-- A closed literal stays the same with more text behind it. -/
theorem closeString?_append {quote : Char} {text body : List Char} (hquote : quote ≠ '\\')
    (h : closeString? quote text = some body) (rest : List Char) :
    closeString? quote (text ++ rest) = some body := by
  obtain ⟨hfront, hliteral⟩ := (closeString?_eq_some_iff hquote).1 h
  exact (closeString?_eq_some_iff hquote).2 ⟨hfront.trans (List.prefix_append text rest), hliteral⟩

/-- A closed literal is read in every context. -/
theorem string?_of_closed {quote : Char} {body : List Char} (hquote : isQuote quote = true)
    (hclosed : closeString? quote body = some body) (rest : List Char) :
    string? (quote :: body ++ rest) = some ⟨.token .string, quote :: body⟩ := by
  rw [List.cons_append, string?, if_pos hquote, closeString?_append (ne_backslash_of_isQuote hquote) hclosed]

/-- A quote opens a block exactly when two more of the same follow it. -/
theorem comment?_eq_none_iff {quote : Char} (hquote : isQuote quote = true) (cs : List Char) :
    comment? (quote :: cs) = none ↔ ¬ [quote, quote] <+: cs := by
  have hsign : quote ≠ '#' := by
    intro heq
    subst heq
    exact absurd hquote (by decide)
  match cs with
  | [] => simp [comment?, hsign]
  | [b] => simp [comment?, hsign, List.cons_prefix_cons]
  | b :: c :: ds => simp [comment?, hquote, List.cons_prefix_cons]

/-- A closed literal that is no block from its text alone is none in front of a separator. -/
theorem comment?_append_eq_none {quote : Char} {body rest : List Char} (hquote : isQuote quote = true)
    (hclosed : closeString? quote body = some body) (h : comment? (quote :: body) = none)
    (hrest : Separates rest) : comment? (quote :: body ++ rest) = none := by
  rw [comment?_eq_none_iff hquote] at h
  rw [List.cons_append, comment?_eq_none_iff hquote]
  intro hblock
  match body with
  | [] => cases hclosed
  | [b] =>
    obtain ⟨more, hmore⟩ : [quote] <+: rest := (List.cons_prefix_cons.1 hblock).2
    have hhead : rest.head? = some quote := by
      rw [← hmore]
      rfl
    have hother := hrest.eq_false (p := isQuote) (by decide) quote hhead
    exact absurd (hquote.symm.trans hother) (by decide)
  | b :: c :: ds => exact h (by simpa [List.cons_prefix_cons] using hblock)

/-- Digits without a point and another digit behind them are a number. -/
theorem number?_of_digits {text rest : List Char} (hne : text ≠ [])
    (hdigits : ∀ c ∈ text, c.isDigit = true) (hrest : ∀ c, rest.head? = some c → c.isDigit = false)
    (hpoint : ∀ cs, rest = '.' :: cs → ∀ c, cs.head? = some c → c.isDigit = false) :
    number? (text ++ rest) = some text := by
  rw [number?, takeWhile_append_of_stop hdigits hrest, dropWhile_append_of_stop hdigits hrest, nonempty?,
    if_neg (by simpa using hne), Option.map_some]
  split
  · rename_i cs
    have hnone : cs.takeWhile Char.isDigit = [] :=
      @takeWhile_append_of_stop _ [] cs (fun c hc => by cases hc) (hpoint cs rfl)
    rw [hnone]
    rfl
  · rfl

/-- Digits on both sides of a point are a number. -/
theorem number?_of_fraction {whole fraction rest : List Char} (hwhole : whole ≠ [])
    (hfraction : fraction ≠ []) (hdigits : ∀ c ∈ whole, c.isDigit = true)
    (hdigits' : ∀ c ∈ fraction, c.isDigit = true)
    (hrest : ∀ c, rest.head? = some c → c.isDigit = false) :
    number? (whole ++ '.' :: fraction ++ rest) = some (whole ++ '.' :: fraction) := by
  have hpoint : ∀ c, ('.' :: (fraction ++ rest)).head? = some c → c.isDigit = false :=
    forall_head?_cons (q := (Char.isDigit · = false)) rfl _
  rw [List.append_assoc, List.cons_append, number?, takeWhile_append_of_stop hdigits hpoint,
    dropWhile_append_of_stop hdigits hpoint, nonempty?, if_neg (by simpa using hwhole), Option.map_some]
  simp only [takeWhile_append_of_stop hdigits' hrest, nonempty?, List.isEmpty_eq_false_iff.2 hfraction,
    Bool.false_eq_true, if_false]

/-- A name goes no further than its characters do. -/
theorem word?_of_name {c : Char} {cs rest : List Char} (hstart : isNameStart c = true)
    (hname : ∀ d ∈ cs, isNameChar d = true) (hrest : ∀ d, rest.head? = some d → isNameChar d = false) :
    word? (c :: cs ++ rest) = some (c :: cs) := by
  rw [List.cons_append, word?, if_pos hstart, takeWhile_append_of_stop hname hrest]

/-- Two characters are tried before one. -/
theorem operator?_eq (window : List Char) :
    operator? window = ((Operator.ofText? (window.take 2)).map (·, window.take 2)).or
      ((Operator.ofText? (window.take 1)).map (·, window.take 1)) := by
  simp only [operator?, List.findSome?_cons, List.findSome?_nil]
  cases Operator.ofText? (window.take 2) <;> cases Operator.ofText? (window.take 1) <;> rfl

/-- An operator is read in front of every separator. -/
theorem operator?_of_spelling (symbol : Operator) {rest : List Char} (hrest : Separates rest) :
    operator? (symbol.spelling.toList ++ rest) = some (symbol, symbol.spelling.toList) := by
  have hsymbol : Operator.ofText? symbol.spelling.toList = some symbol :=
    Operator.ofText?_eq_some_iff.2 rfl
  have hlength : symbol.spelling.toList.length = 1 ∨ symbol.spelling.toList.length = 2 := by
    cases symbol <;> decide
  generalize symbol.spelling.toList = text at hsymbol hlength
  rw [operator?_eq]
  rcases hlength with hone | htwo
  · have hfirst : (text ++ rest).take 1 = text := List.take_left' hone
    cases rest with
    | nil =>
      have hwhole : (text ++ []).take 2 = text := by
        rw [List.append_nil]
        exact List.take_of_length_le (by omega)
      rw [hwhole, hsymbol]
      rfl
    | cons c cs =>
      have hboth : (text ++ c :: cs).take 2 = text ++ [c] := by
        rw [List.take_append, List.take_of_length_le (by omega), hone]
        rfl
      have hmem : c ∈ text ++ [c] := List.mem_append_right _ (List.mem_singleton_self c)
      rw [hboth, Operator.ofText?_eq_none_of_mem hrest.mem_separators hmem, hfirst, hsymbol]
      rfl
  · have hfirst : (text ++ rest).take 2 = text := List.take_left' htwo
    rw [hfirst, hsymbol]
    rfl

/-- A delimiter is read in every context. -/
theorem delimiter?_of_spelling (symbol : Delimiter) (rest : List Char) :
    delimiter? (symbol.spelling.toList ++ rest) = some (symbol, symbol.spelling.toList) := by
  cases symbol <;> rfl

end Lexeme

open Lexeme

/-- A rule for tokens that reads a whole text reads it in front of every separator. -/
theorem Rule.apply_append {rule : Rule} {text rest : List Char} {kind : Kind}
    (h : rule.apply text = some ⟨.token kind, text⟩) (hrest : Separates rest) :
    rule.apply (text ++ rest) = some ⟨.token kind, text⟩ := by
  have hdigit := hrest.eq_false (p := Char.isDigit) (by decide)
  cases takes_of_apply h with
  | literal hwindow hquote hclosed =>
    cases hwindow
    exact string?_of_closed hquote hclosed rest
  | digits htext hne =>
    have hdigits := forall_of_eq_takeWhile htext
    have hpoint : rest.head? ≠ some '.' := fun hhead =>
      absurd (hrest.eq_false (p := (· == '.')) (by decide) '.' hhead) (by decide)
    rw [apply, number?_of_digits hne hdigits hdigit fun cs hcs => absurd (by rw [hcs]; rfl) hpoint]
    rfl
  | @fraction whole digits cs hwhole hne hpoint hdigits hne' =>
    have hwhole' := forall_of_eq_takeWhile hwhole
    have hdigits' := forall_of_eq_takeWhile hdigits
    rw [apply, number?_of_fraction hne hne' hwhole' hdigits' hdigit]
    rfl
  | @name c cs hwindow hstart =>
    have hname := hrest.eq_false (p := isNameChar) (by decide)
    rw [apply, word?_of_name hstart (fun d hd => List.mem_takeWhile_imp hd) hname]
    rfl
  | @operator symbol count hcount htext =>
    rw [apply, operator?_of_spelling symbol hrest]
    rfl
  | @delimiter symbol htext =>
    rw [apply, delimiter?_of_spelling symbol rest]
    rfl

/-- A token that is read from its text alone is read in front of every separator. -/
theorem classify_append {text rest : List Char} {kind : Kind}
    (h : classify text = some ⟨.token kind, text⟩) (hrest : Separates rest) :
    classify (text ++ rest) = some ⟨.token kind, text⟩ := by
  rcases classify_cases h with ⟨rule, happly, hcomment⟩ | ⟨c, cs, -, -, heq⟩
  · refine classify_of_apply (Rule.apply_append happly hrest) fun hstring => ?_
    subst hstring
    cases Rule.takes_of_apply happly with
    | literal hwindow hquote hclosed =>
      cases hwindow
      exact comment?_append_eq_none hquote hclosed (hcomment rfl) hrest
  · cases heq

/-- A run of blanks is read up to the first other character. -/
theorem classify_blanks {margin rest : List Char} (hne : margin ≠ [])
    (hblank : ∀ c ∈ margin, isBlank c = true) (hrest : ∀ c, rest.head? = some c → isBlank c = false) :
    classify (margin ++ rest) = some ⟨.blank, margin⟩ := by
  refine @classify_of_apply .blank _ _ ?_ (fun hstring => by cases hstring)
  rw [Rule.apply, blank?, takeWhile_append_of_stop hblank hrest, nonempty?, if_neg (by simpa using hne)]
  rfl

/-- A run of blanks that is read has blanks only, and no blank behind it. -/
theorem blanks_of_classify {margin rest : List Char} (h : classify (margin ++ rest) = some ⟨.blank, margin⟩) :
    (∀ c ∈ margin, isBlank c = true) ∧ ∀ c, rest.head? = some c → isBlank c = false := by
  rcases classify_cases h with ⟨rule, happly, -⟩ | ⟨c, cs, -, -, heq⟩
  · cases Rule.takes_of_apply happly with
    | blanks htext hne =>
      exact ⟨forall_of_eq_takeWhile htext, stop_of_takeWhile_append (by rw [← htext])⟩
  · cases heq

/-- The blanks at the front of a text are its first lexeme, if that is blanks. -/
theorem takeWhile_isBlank_of_classify {window : List Char} {lexeme : Lexeme}
    (h : classify window = some lexeme) :
    window.takeWhile isBlank = if lexeme.reading = .blank then lexeme.text else [] := by
  by_cases hrun : window.takeWhile isBlank = []
  · rw [hrun]
    split
    case isTrue hblank =>
      obtain ⟨reading, text⟩ := lexeme
      cases hblank
      rcases classify_cases h with ⟨rule, happly, -⟩ | ⟨c, cs, -, -, heq⟩
      · cases Rule.takes_of_apply happly with
        | blanks htext hne => exact absurd (htext.trans hrun) hne
      · cases heq
    case isFalse => rfl
  · have hblank : Rule.apply window .blank = some ⟨.blank, window.takeWhile isBlank⟩ := by
      simp [Rule.apply, blank?, nonempty?, hrun]
    rw [classify_of_apply hblank (fun hstring => by cases hstring)] at h
    cases h
    exact (if_pos rfl).symm

/-- A comment is read up to the end of its line. -/
theorem classify_comment {text rest : List Char} (htext : ∀ c ∈ text, isLineEnd c = false)
    (hrest : ∀ c, rest.head? = some c → isLineEnd c = true) :
    classify ('#' :: text ++ rest) = some ⟨.comment, '#' :: text⟩ := by
  refine @classify_of_apply .comment _ _ ?_ (fun hstring => by cases hstring)
  rw [Rule.apply, List.cons_append, comment?, takeWhile_append_of_stop]
  · rfl
  · exact fun c hc => by simp [htext c hc]
  · exact fun c hc => by simp [hrest c hc]

/-- A line feed is a line end on its own. -/
theorem classify_lineFeed (rest : List Char) : classify ('\n' :: rest) = some ⟨.lineEnd, ['\n']⟩ :=
  @classify_of_apply .lineEnd _ _ rfl (fun hstring => by cases hstring)

/-- No token or fault opens with a blank. -/
theorem isBlank_eq_false_of_classify {c : Char} {cs : List Char} {lexeme : Lexeme}
    (h : classify (c :: cs) = some lexeme) (htrivia : lexeme.reading.isTrivia = false) :
    isBlank c = false := by
  have hnone := @Rule.apply_eq_none_of_mem_trivia .blank _ _ (by decide) h htrivia
  by_contra hblank
  rw [Bool.not_eq_false] at hblank
  simp [Rule.apply, blank?, nonempty?, hblank] at hnone

/-- No token or fault opens with a line end. -/
theorem isLineEnd_eq_false_of_classify {c : Char} {cs : List Char} {lexeme : Lexeme}
    (h : classify (c :: cs) = some lexeme) (htrivia : lexeme.reading.isTrivia = false) :
    isLineEnd c = false := by
  have hnone := @Rule.apply_eq_none_of_mem_trivia .lineEnd _ _ (by decide) h htrivia
  by_contra hend
  rw [Bool.not_eq_false] at hend
  exact lineEnd?_ne_none hend cs (Option.map_eq_none_iff.1 hnone)

end Offside
