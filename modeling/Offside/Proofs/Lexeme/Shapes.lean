import Offside.Proofs.Lexeme.Boundary
import Offside.Proofs.Scan.Segmentation

/-!
# Shapes of lexemes

Whether a text has the shape of a number, a name or a string is asked of the whole text, and a rule only looks at
the front of a text. What a rule takes still has the shape that goes with its kind: a run is cut off where its
characters end, so all of it is of the run, and a literal is cut off behind the quote that closes it.

Tokens of all other kinds have no shape that could fail, so every token of a scan is well shaped.
-/

namespace Offside

open Text

namespace Token

variable {whole digits : List Char}

/-- Digits are a numeral. -/
theorem isNumeral_of_digits (hne : digits ≠ []) (hdigits : ∀ c ∈ digits, c.isDigit = true) :
    isNumeral digits = true := by
  have hrun : digits.takeWhile Char.isDigit = digits := List.takeWhile_eq_self_iff.2 hdigits
  have hrest : digits.dropWhile Char.isDigit = [] := List.dropWhile_eq_nil_iff.2 hdigits
  simp [isNumeral, hrun, hrest, hne]

/-- Digits on both sides of a point are a numeral. -/
theorem isNumeral_of_fraction (hne : whole ≠ []) (hwhole : ∀ c ∈ whole, c.isDigit = true) (hne' : digits ≠ [])
    (hdigits : ∀ c ∈ digits, c.isDigit = true) : isNumeral (whole ++ '.' :: digits) = true := by
  have hpoint : ∀ c, ('.' :: digits).head? = some c → c.isDigit = false := forall_head?_cons (by decide) digits
  have hrun : (whole ++ '.' :: digits).takeWhile Char.isDigit = whole := takeWhile_append_of_stop hwhole hpoint
  have hrest : (whole ++ '.' :: digits).dropWhile Char.isDigit = '.' :: digits :=
    dropWhile_append_of_stop hwhole hpoint
  simpa [isNumeral, hrun, hrest, hne, hne'] using hdigits

/-- Two equal quotes with a literal between them are a quoted text. -/
theorem isQuoted_of_closeString? {quote : Char} {cs body : List Char} (hquote : isQuote quote = true)
    (hclosed : Lexeme.closeString? quote cs = some body) : isQuoted (quote :: body) = true := by
  simp [isQuoted, hquote, Lexeme.getLast?_of_closeString? hclosed]

/-- A name has its shape whether it is reserved or not. -/
theorem isWellShaped_ofWord {text : List Char} (hname : isName text = true) (start stop : Position) :
    (Token.mk (.ofWord text) text start stop).isWellShaped = true := by
  unfold Kind.ofWord
  split
  · rfl
  · exact hname

end Token

/-- What is taken as a number has the shape of one. -/
theorem Rule.isNumeral_of_takes {window : List Char} {lexeme : Lexeme} (h : Takes window .number lexeme) :
    Token.isNumeral lexeme.text = true := by
  cases h with
  | digits htext hne =>
    exact Token.isNumeral_of_digits hne (forall_of_eq_takeWhile htext)
  | fraction hwhole hne hpoint hdigits hne' =>
    exact Token.isNumeral_of_fraction hne (forall_of_eq_takeWhile hwhole) hne' (forall_of_eq_takeWhile hdigits)

/-- What is taken as a name has the shape of one. -/
theorem Rule.isName_of_takes {window : List Char} {lexeme : Lexeme} (h : Takes window .word lexeme) :
    Token.isName lexeme.text = true := by
  cases h with
  | name hwindow hstart =>
    simp only [Token.isName, hstart, Bool.true_and, List.all_eq_true]
    exact fun c hc => List.mem_takeWhile_imp hc

/-- Whatever a token is read from, its text has the shape of its kind. -/
theorem isWellShaped_of_classify {window text : List Char} {kind : Kind} (start stop : Position)
    (h : classify window = some ⟨.token kind, text⟩) : (Token.mk kind text start stop).isWellShaped = true := by
  rcases classify_cases h with ⟨rule, happly, -⟩ | ⟨c, cs, -, -, heq⟩
  · cases Rule.takes_of_apply happly with
    | literal hwindow hquote hclosed => exact Token.isQuoted_of_closeString? hquote hclosed
    | digits htext hne => exact Rule.isNumeral_of_takes (.digits htext hne)
    | fraction hwhole hne hpoint hdigits hne' =>
      exact Rule.isNumeral_of_takes (.fraction hwhole hne hpoint hdigits hne')
    | name hwindow hstart => exact Token.isWellShaped_ofWord (Rule.isName_of_takes (.name hwindow hstart)) start stop
    | operator | delimiter => rfl
  · cases heq

/-- Every token of a text has the shape of its kind. -/
theorem isWellShaped_of_mem_tokensOf {source : List Char} {token : Token} (h : token ∈ tokensOf source) :
    token.isWellShaped = true := by
  cases hlayout : token.kind.isLayout with
  | false =>
    obtain ⟨window, hwindow⟩ := exists_classify_of_mem_segment (mem_segment_of_mem_tokensOf h hlayout)
    exact isWellShaped_of_classify token.start token.stop hwindow
  | true =>
    unfold Token.isWellShaped
    split <;> simp_all [Kind.isLayout]

end Offside
