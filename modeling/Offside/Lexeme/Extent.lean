import Offside.Lexeme.Classify

/-!
# What a lexeme takes

Whatever the rules are, the lexeme at the front of a text is a nonempty beginning of that text. Each
rule has a lemma for this, and classification gets it from them.

Repeated classification therefore ends, and `segment` cuts a whole text into lexemes whose texts
join to it. Segmentation knows nothing of layout, and no token position comes from it.
-/

namespace Offside

namespace Lexeme

open Text

/-- A nonempty piece of text that `window` begins with. -/
def IsFront (text window : List Char) : Prop :=
  text ≠ [] ∧ text <+: window

/-- What is left behind such a piece is shorter. -/
theorem IsFront.length_drop_lt {text window : List Char} (h : IsFront text window) :
    (window.drop text.length).length < window.length := by
  have htaken := h.2.length_le
  have hpos := List.length_pos_iff.2 h.1
  rw [List.length_drop]
  omega

/-- The empty text has no such piece. -/
theorem IsFront.window_ne_nil {text window : List Char} (h : IsFront text window) : window ≠ [] := by
  rintro rfl
  exact h.1 (List.prefix_nil.1 h.2)

/-- A piece and a text with first characters are compared there first. -/
theorem isFront_cons_iff {c d : Char} {text window : List Char} :
    IsFront (c :: text) (d :: window) ↔ c = d ∧ text <+: window := by
  simp [IsFront, List.cons_prefix_cons]

/-- A text that must not be empty is kept as it is. -/
theorem eq_of_nonempty? {text piece : List Char} (h : nonempty? text = some piece) :
    piece = text ∧ piece ≠ [] := by
  unfold nonempty? at h
  split at h <;> simp_all

/-! ### Trivia -/

/-- Blanks are taken from the front. -/
theorem isFront_of_blank? {window text : List Char} (h : blank? window = some text) :
    IsFront text window := by
  obtain ⟨rfl, hne⟩ := eq_of_nonempty? h
  exact ⟨hne, List.takeWhile_prefix _⟩

/-- A line end is taken from the front, a pair as a whole. -/
theorem isFront_of_lineEnd? {window text : List Char} (h : lineEnd? window = some text) :
    IsFront text window := by
  unfold lineEnd? at h
  split at h
  · cases h
    simp [IsFront]
  · split at h <;> cases h
    simp [IsFront]
  · cases h

/-- What a block takes behind its opening quotes is a beginning, up to the closing ones or all of it. -/
theorem closeBlock_prefix (quote : Char) (text : List Char) : closeBlock quote text <+: text := by
  induction text with
  | nil => exact List.prefix_refl _
  | cons c cs ih =>
    unfold closeBlock
    split
    · assumption
    · simpa [List.cons_prefix_cons] using ih

/-- A comment is taken from the front, whether it goes on to the end of a line or is a block. -/
theorem isFront_of_comment? {window text : List Char} (h : comment? window = some text) :
    IsFront text window := by
  unfold comment? at h
  split at h
  · cases h
    exact isFront_cons_iff.2 ⟨rfl, List.takeWhile_prefix _⟩
  · split at h <;> cases h
    simp [IsFront, List.cons_prefix_cons, closeBlock_prefix]
  · cases h

/-! ### Literals and names -/

/-- What a string takes behind its opening quote is a beginning. -/
theorem prefix_of_closeString? {quote : Char} {text body : List Char}
    (h : closeString? quote text = some body) : body <+: text := by
  fun_induction closeString? quote text generalizing body with
  | case1 => cases h
  | case2 c cs ih =>
    obtain ⟨inner, hinner, rfl⟩ := Option.map_eq_some_iff.1 h
    simpa [List.cons_prefix_cons] using ih hinner
  | case3 => cases h; simp
  | case4 => cases h
  | case5 c cs _ _ _ ih =>
    obtain ⟨inner, hinner, rfl⟩ := Option.map_eq_some_iff.1 h
    simpa [List.cons_prefix_cons] using ih hinner

/-- A string is taken from the front. So is the quote alone, where the string is not closed. -/
theorem isFront_of_string? {window : List Char} {lexeme : Lexeme}
    (h : string? window = some lexeme) : IsFront lexeme.text window := by
  unfold string? at h
  split at h
  · cases h
  · split at h
    · split at h <;> cases h
      · rename_i body hclosed
        exact isFront_cons_iff.2 ⟨rfl, prefix_of_closeString? hclosed⟩
      · exact isFront_cons_iff.2 ⟨rfl, List.nil_prefix⟩
    · cases h

/-- A number is taken from the front. A point is taken with it only in front of a digit. -/
theorem isFront_of_number? {window text : List Char} (h : number? window = some text) :
    IsFront text window := by
  obtain ⟨whole, hwhole, rfl⟩ := Option.map_eq_some_iff.1 h
  obtain ⟨rfl, hne⟩ := eq_of_nonempty? hwhole
  split
  · rename_i cs hrest
    split
    · rename_i fraction hfraction
      obtain ⟨rfl, -⟩ := eq_of_nonempty? hfraction
      refine ⟨by simp, ?_⟩
      have hsplit := List.takeWhile_append_dropWhile (p := Char.isDigit) (l := window)
      rw [hrest] at hsplit
      conv => rhs; rw [← hsplit]
      exact (List.prefix_append_right_inj _).2
        (List.cons_prefix_cons.2 ⟨rfl, List.takeWhile_prefix _⟩)
    · exact ⟨hne, List.takeWhile_prefix _⟩
  · exact ⟨hne, List.takeWhile_prefix _⟩

/-- A name is taken from the front. -/
theorem isFront_of_word? {window text : List Char} (h : word? window = some text) :
    IsFront text window := by
  unfold word? at h
  split at h
  · cases h
  · split at h <;> cases h
    exact isFront_cons_iff.2 ⟨rfl, List.takeWhile_prefix _⟩

/-! ### Symbols -/

/-- An operator is taken from the front, with the text that was looked up. -/
theorem isFront_of_operator? {window : List Char} {found : Operator × List Char}
    (h : operator? window = some found) : IsFront found.2 window := by
  obtain ⟨n, -, hfound⟩ := List.exists_of_findSome?_eq_some h
  obtain ⟨symbol, hsymbol, rfl⟩ := Option.map_eq_some_iff.1 hfound
  exact ⟨Operator.ne_nil_of_ofText? hsymbol, List.take_prefix _ _⟩

/-- A delimiter is taken from the front, with the text that was looked up. -/
theorem isFront_of_delimiter? {window : List Char} {found : Delimiter × List Char}
    (h : delimiter? window = some found) : IsFront found.2 window := by
  obtain ⟨symbol, hsymbol, rfl⟩ := Option.map_eq_some_iff.1 h
  exact ⟨Delimiter.ne_nil_of_ofText? hsymbol, List.take_prefix _ _⟩

end Lexeme

open Lexeme (IsFront)

/-- Every rule takes a nonempty beginning of the text. -/
theorem Rule.isFront_of_apply {rule : Rule} {window : List Char} {lexeme : Lexeme}
    (h : rule.apply window = some lexeme) : IsFront lexeme.text window := by
  cases rule <;> simp only [Rule.apply, Option.map_eq_some_iff] at h
  case blank => obtain ⟨text, htext, rfl⟩ := h; exact Lexeme.isFront_of_blank? htext
  case lineEnd => obtain ⟨text, htext, rfl⟩ := h; exact Lexeme.isFront_of_lineEnd? htext
  case comment => obtain ⟨text, htext, rfl⟩ := h; exact Lexeme.isFront_of_comment? htext
  case string => exact Lexeme.isFront_of_string? h
  case number => obtain ⟨text, htext, rfl⟩ := h; exact Lexeme.isFront_of_number? htext
  case word => obtain ⟨text, htext, rfl⟩ := h; exact Lexeme.isFront_of_word? htext
  case operator => obtain ⟨found, hfound, rfl⟩ := h; exact Lexeme.isFront_of_operator? hfound
  case delimiter => obtain ⟨found, hfound, rfl⟩ := h; exact Lexeme.isFront_of_delimiter? hfound

/-- Under any rules, a lexeme is a nonempty beginning of the text. -/
theorem isFront_of_classifyBy {rules : List Rule} {window : List Char} {lexeme : Lexeme}
    (h : classifyBy rules window = some lexeme) : IsFront lexeme.text window := by
  cases window with
  | nil => cases h
  | cons c cs =>
    simp only [classifyBy, Option.some.injEq] at h
    cases htaken : rules.findSome? (Rule.apply (c :: cs)) with
    | none =>
      rw [htaken] at h
      subst h
      simp [IsFront]
    | some found =>
      rw [htaken] at h
      subst h
      obtain ⟨rule, -, happly⟩ := List.exists_of_findSome?_eq_some htaken
      exact Rule.isFront_of_apply happly

/-- A lexeme is a nonempty beginning of the text. -/
theorem isFront_of_classify {window : List Char} {lexeme : Lexeme}
    (h : classify window = some lexeme) : IsFront lexeme.text window :=
  isFront_of_classifyBy h

/-- Only the empty text has no lexeme at its front. -/
@[simp] theorem classify_eq_none_iff {window : List Char} : classify window = none ↔ window = [] := by
  cases window <;> simp [classify, classifyBy]

/-- There is a lexeme at the front of every other text. -/
theorem exists_classify_of_ne_nil {window : List Char} (h : window ≠ []) :
    ∃ lexeme, classify window = some lexeme := by
  rw [← Option.isSome_iff_exists, Option.isSome_iff_ne_none, ne_eq, classify_eq_none_iff]
  exact h

/-- What is left behind a lexeme is shorter. -/
theorem length_drop_lt_of_classify {window : List Char} {lexeme : Lexeme}
    (h : classify window = some lexeme) :
    (window.drop lexeme.text.length).length < window.length :=
  (isFront_of_classify h).length_drop_lt

/-- The lexemes of a whole text, in order. -/
def segment (source : List Char) : List Lexeme :=
  match _ : classify source with
  | none => []
  | some lexeme => lexeme :: segment (source.drop lexeme.text.length)
termination_by source.length
decreasing_by exact length_drop_lt_of_classify ‹_›

@[simp] theorem segment_nil : segment [] = [] := by
  rw [segment]
  rfl

/-- A text is cut behind its first lexeme, and then further on. -/
theorem segment_of_classify {source : List Char} {lexeme : Lexeme} (h : classify source = some lexeme) :
    segment source = lexeme :: segment (source.drop lexeme.text.length) := by
  rw [segment]
  split <;> simp_all

/-- No character of a text is lost or read twice. -/
theorem flatten_segment (source : List Char) :
    ((segment source).map Lexeme.text).flatten = source := by
  fun_induction segment source with
  | case1 source h => simpa using (classify_eq_none_iff.1 h).symm
  | case2 source lexeme h ih =>
    rw [List.map_cons, List.flatten_cons, ih]
    exact List.prefix_iff_eq_append.1 (isFront_of_classify h).2

end Offside
