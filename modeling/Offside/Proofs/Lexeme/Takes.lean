import Mathlib.Data.List.TakeWhile
import Offside.Lexeme.Extent
import Offside.Proofs.Text

/-!
# What a rule takes

Each rule takes lexemes of a few forms, and this module says which. There is one case for each form, with
what the text has to look like for it and what the lexeme then is. Facts about all rules follow by going
over these cases, and no rule has to be opened for them again.
-/

namespace Offside

open Text Lexeme

namespace Rule

/-- A rule takes a lexeme from the front of a text. -/
inductive Takes (window : List Char) : Rule → Lexeme → Prop where
  /-- A run of blanks. -/
  | blanks {text : List Char} (htext : text = window.takeWhile isBlank) (hne : text ≠ []) :
      Takes window .blank ⟨.blank, text⟩
  /-- A carriage return and the line feed behind it. -/
  | pair {cs : List Char} (hwindow : window = '\r' :: '\n' :: cs) :
      Takes window .lineEnd ⟨.lineEnd, ['\r', '\n']⟩
  /-- A line end that is not the first half of a pair. -/
  | single {c : Char} {cs : List Char} (hwindow : window = c :: cs) (hend : isLineEnd c = true)
      (hwhole : ¬ CutsPair [c] cs) : Takes window .lineEnd ⟨.lineEnd, [c]⟩
  /-- A number sign and the rest of its line. -/
  | remark {cs : List Char} (hwindow : window = '#' :: cs) :
      Takes window .comment ⟨.comment, '#' :: cs.takeWhile fun c => !isLineEnd c⟩
  /-- Three quotes and what follows up to the next three. -/
  | block {quote : Char} {cs : List Char} (hwindow : window = quote :: quote :: quote :: cs)
      (hquote : isQuote quote = true) :
      Takes window .comment ⟨.comment, quote :: quote :: quote :: closeBlock quote cs⟩
  /-- A quote and what follows up to the quote that closes it. -/
  | literal {quote : Char} {cs body : List Char} (hwindow : window = quote :: cs)
      (hquote : isQuote quote = true) (hclosed : closeString? quote cs = some body) :
      Takes window .string ⟨.token .string, quote :: body⟩
  /-- A quote that nothing closes. -/
  | unclosed {quote : Char} {cs : List Char} (hwindow : window = quote :: cs)
      (hquote : isQuote quote = true) (hopen : closeString? quote cs = none) :
      Takes window .string ⟨.fault (.unterminatedString quote), [quote]⟩
  /-- A run of digits. -/
  | digits {text : List Char} (htext : text = window.takeWhile Char.isDigit) (hne : text ≠ []) :
      Takes window .number ⟨.token .number, text⟩
  /-- Runs of digits on both sides of a point. -/
  | fraction {whole digits cs : List Char} (hwhole : whole = window.takeWhile Char.isDigit)
      (hne : whole ≠ []) (hpoint : window.dropWhile Char.isDigit = '.' :: cs)
      (hdigits : digits = cs.takeWhile Char.isDigit) (hne' : digits ≠ []) :
      Takes window .number ⟨.token .number, whole ++ '.' :: digits⟩
  /-- A character that starts names, and a run of those that names go on with. -/
  | name {c : Char} {cs : List Char} (hwindow : window = c :: cs) (hstart : isNameStart c = true) :
      Takes window .word ⟨.token (.ofWord (c :: cs.takeWhile isNameChar)), c :: cs.takeWhile isNameChar⟩
  /-- The spelling of an operator. -/
  | operator {symbol : Operator} {count : Nat} (hcount : count ≠ 0)
      (htext : window.take count = symbol.spelling.toList) :
      Takes window .operator ⟨.token (.operator symbol), symbol.spelling.toList⟩
  /-- The spelling of a delimiter. -/
  | delimiter {symbol : Delimiter} (htext : window.take 1 = symbol.spelling.toList) :
      Takes window .delimiter ⟨.token (.delimiter symbol), symbol.spelling.toList⟩

variable {window text : List Char} {lexeme : Lexeme}

/-- A line end is a pair, or a single character that is no half of one. -/
theorem takes_of_lineEnd? (h : lineEnd? window = some text) : Takes window .lineEnd ⟨.lineEnd, text⟩ := by
  unfold lineEnd? at h
  split at h
  case h_1 cs =>
    cases h
    exact .pair rfl
  case h_2 c cs hpair =>
    by_cases hend : isLineEnd c = true
    · rw [if_pos hend] at h
      cases h
      exact .single rfl hend (not_cutsPair_singleton hpair)
    · rw [if_neg hend] at h
      cases h
  case h_3 => cases h

/-- A comment is a remark or a block. -/
theorem takes_of_comment? (h : comment? window = some text) : Takes window .comment ⟨.comment, text⟩ := by
  unfold comment? at h
  split at h
  case h_1 cs =>
    cases h
    exact .remark rfl
  case h_2 a b c cs hsign =>
    by_cases hquotes : (isQuote a && a == b && a == c) = true
    · rw [if_pos hquotes] at h
      simp only [Bool.and_eq_true, beq_iff_eq] at hquotes
      obtain ⟨⟨hquote, hb⟩, hc⟩ := hquotes
      subst hb hc
      cases h
      exact .block rfl hquote
    · rw [if_neg hquotes] at h
      cases h
  case h_3 => cases h

/-- A quote opens a literal or a fault. -/
theorem takes_of_string? (h : string? window = some lexeme) : Takes window .string lexeme := by
  cases window with
  | nil => cases h
  | cons quote cs =>
    by_cases hquote : isQuote quote = true
    · rw [string?, if_pos hquote] at h
      cases hclosed : closeString? quote cs with
      | some body =>
        rw [hclosed] at h
        cases h
        exact .literal rfl hquote hclosed
      | none =>
        rw [hclosed] at h
        cases h
        exact .unclosed rfl hquote hclosed
    · rw [string?, if_neg hquote] at h
      cases h

/-- A number has a fraction or not. -/
theorem takes_of_number? (h : number? window = some text) :
    Takes window .number ⟨.token .number, text⟩ := by
  obtain ⟨whole, hwhole, htext⟩ := Option.map_eq_some_iff.1 h
  obtain ⟨hrun, hne⟩ := eq_of_nonempty? hwhole
  split at htext
  case h_1 cs hpoint =>
    split at htext
    case h_1 digits hfound =>
      obtain ⟨hdigits, hne'⟩ := eq_of_nonempty? hfound
      subst htext
      exact .fraction hrun hne hpoint hdigits hne'
    case h_2 =>
      subst htext
      exact .digits hrun hne
  case h_2 =>
    subst htext
    exact .digits hrun hne

/-- A name goes as far as its characters do. -/
theorem takes_of_word? (h : word? window = some text) :
    Takes window .word ⟨.token (.ofWord text), text⟩ := by
  cases window with
  | nil => cases h
  | cons c cs =>
    by_cases hstart : isNameStart c = true
    · rw [word?, if_pos hstart] at h
      cases h
      exact .name rfl hstart
    · rw [word?, if_neg hstart] at h
      cases h

/-- An operator is the front of the text that spells it. -/
theorem takes_of_operator? {symbol : Operator} (h : operator? window = some (symbol, text)) :
    Takes window .operator ⟨.token (.operator symbol), text⟩ := by
  obtain ⟨count, hcount, hfound⟩ := List.exists_of_findSome?_eq_some h
  obtain ⟨other, hother, heq⟩ := Option.map_eq_some_iff.1 hfound
  have hspelling := Operator.ofText?_eq_some_iff.1 hother
  cases heq
  rw [hspelling]
  have hpositive : count ≠ 0 := by
    intro hzero
    simp [hzero] at hcount
  exact @Takes.operator window _ count hpositive hspelling

/-- A delimiter is the first character of the text. -/
theorem takes_of_delimiter? {symbol : Delimiter} (h : delimiter? window = some (symbol, text)) :
    Takes window .delimiter ⟨.token (.delimiter symbol), text⟩ := by
  obtain ⟨other, hother, heq⟩ := Option.map_eq_some_iff.1 h
  have hspelling := Delimiter.ofText?_eq_some_iff.1 hother
  cases heq
  rw [hspelling]
  exact .delimiter hspelling

/-- What a rule gives has one of the forms that it takes. -/
theorem takes_of_apply {rule : Rule} (h : rule.apply window = some lexeme) : Takes window rule lexeme := by
  cases rule with
  | blank =>
    obtain ⟨text, hfound, heq⟩ := Option.map_eq_some_iff.1 h
    obtain ⟨htext, hne⟩ := eq_of_nonempty? hfound
    rw [← heq]
    exact .blanks htext hne
  | lineEnd =>
    obtain ⟨text, hfound, heq⟩ := Option.map_eq_some_iff.1 h
    rw [← heq]
    exact takes_of_lineEnd? hfound
  | comment =>
    obtain ⟨text, hfound, heq⟩ := Option.map_eq_some_iff.1 h
    rw [← heq]
    exact takes_of_comment? hfound
  | string => exact takes_of_string? h
  | number =>
    obtain ⟨text, hfound, heq⟩ := Option.map_eq_some_iff.1 h
    rw [← heq]
    exact takes_of_number? hfound
  | word =>
    obtain ⟨text, hfound, heq⟩ := Option.map_eq_some_iff.1 h
    rw [← heq]
    exact takes_of_word? hfound
  | operator =>
    obtain ⟨pair, hfound, heq⟩ := Option.map_eq_some_iff.1 h
    rw [← heq]
    exact takes_of_operator? hfound
  | delimiter =>
    obtain ⟨pair, hfound, heq⟩ := Option.map_eq_some_iff.1 h
    rw [← heq]
    exact takes_of_delimiter? hfound

end Rule

end Offside
