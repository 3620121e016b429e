import Mathlib.Tactic.ByContra
import Offside.Lexeme.Extent

/-!
# The grammar of string literals

A string literal is a quote, some units, and the same quote again. A unit is a backslash with one character
behind it, whatever that is, or one other character that neither closes the literal nor ends the line. This is said
here of whole texts, without a look at how a text is gone over.

Going over a text finds the literal that it begins with, if it begins with one. No text begins with two, since a
unit is never a beginning of another one, nor of the closing quote.
-/

namespace Offside.Lexeme

open Text

/-- What a literal between two quotes is made of. -/
inductive LiteralUnit (quote : Char) : List Char → Prop where
  /-- A backslash takes the character behind it along. -/
  | escaped (c : Char) : LiteralUnit quote ['\\', c]
  /-- Any other character stands for itself, unless it closes the literal or ends the line. -/
  | plain {c : Char} (hquote : c ≠ quote) (hslash : c ≠ '\\') (hend : isLineEnd c = false) :
      LiteralUnit quote [c]

/-- A whole text that is a literal: a quote, some units, and the quote again. -/
def IsLiteral (quote : Char) (text : List Char) : Prop :=
  ∃ units : List (List Char), (∀ unit ∈ units, LiteralUnit quote unit) ∧
    text = quote :: (units.flatten ++ [quote])

variable {quote : Char} {text body : List Char}

/-- Behind the opening quote of a literal stand its units and the closing quote. -/
theorem isLiteral_cons_iff :
    IsLiteral quote (quote :: body) ↔
      ∃ units : List (List Char), (∀ unit ∈ units, LiteralUnit quote unit) ∧
        body = units.flatten ++ [quote] := by
  simp [IsLiteral]

/-- Any character but a backslash closes a literal, breaks it, or belongs to it alone. -/
theorem closeString?_cons_of_ne {c : Char} (h : c ≠ '\\') (cs : List Char) :
    closeString? quote (c :: cs) =
      if c == quote then some [c] else if isLineEnd c then none
      else (closeString? quote cs).map (c :: ·) := by
  rw [closeString?.eq_def]
  split
  case h_1 heq => cases heq
  case h_2 heq => exact absurd (List.cons.inj heq).1 h
  case h_3 heq =>
    obtain ⟨hc, hcs⟩ := List.cons.inj heq
    rw [hc, hcs]

/-- No literal opens with a backslash. -/
theorem ne_backslash_of_isQuote (hquote : isQuote quote = true) : quote ≠ '\\' := by
  rintro rfl
  exact absurd hquote (by decide)

/-- What is found to be closed is made of units and the closing quote. -/
theorem isLiteral_of_closeString? (h : closeString? quote text = some body) : IsLiteral quote (quote :: body) := by
  rw [isLiteral_cons_iff]
  fun_induction closeString? quote text generalizing body with
  | case1 => cases h
  | case2 c cs ih =>
    obtain ⟨inner, hinner, rfl⟩ := Option.map_eq_some_iff.1 h
    obtain ⟨units, hunits, rfl⟩ := ih hinner
    exact ⟨['\\', c] :: units, List.forall_mem_cons.2 ⟨.escaped c, hunits⟩, rfl⟩
  | case3 c cs hescape hclosed =>
    obtain rfl := Option.some.inj h
    exact ⟨[], by simp, by simpa using hclosed⟩
  | case4 => cases h
  | case5 c cs hescape hopen hend ih =>
    obtain ⟨inner, hinner, rfl⟩ := Option.map_eq_some_iff.1 h
    obtain ⟨units, hunits, rfl⟩ := ih hinner
    -- a backslash with nothing behind it leaves the literal open
    have hslash : c ≠ '\\' := by
      intro heq
      cases cs with
      | nil => cases hinner
      | cons d ds => exact hescape d ds heq rfl
    have hunit : LiteralUnit quote [c] := .plain (by simpa using hopen) hslash (by simpa using hend)
    exact ⟨[c] :: units, List.forall_mem_cons.2 ⟨hunit, hunits⟩, rfl⟩

/-- Units with a quote behind them are found to be closed there. -/
theorem closeString?_of_units {units : List (List Char)} (hquote : quote ≠ '\\')
    (h : ∀ unit ∈ units, LiteralUnit quote unit) (rest : List Char) :
    closeString? quote (units.flatten ++ quote :: rest) = some (units.flatten ++ [quote]) := by
  induction units with
  | nil =>
    rw [List.flatten_nil, List.nil_append, closeString?_cons_of_ne hquote, if_pos (beq_self_eq_true quote)]
    rfl
  | cons unit units ih =>
    obtain ⟨hunit, hunits⟩ := List.forall_mem_cons.1 h
    rw [List.flatten_cons, List.append_assoc]
    cases hunit with
    | escaped c =>
      rw [List.cons_append, List.singleton_append, closeString?, ih hunits]
      rfl
    | @plain c hother hslash hend =>
      rw [List.singleton_append, closeString?_cons_of_ne hslash, if_neg (by simpa using hother),
        if_neg (by simp [hend]), ih hunits]
      rfl

/-- A text is found to be closed where it begins with what closes a literal, and nowhere else. -/
theorem closeString?_eq_some_iff (hquote : quote ≠ '\\') :
    closeString? quote text = some body ↔ body <+: text ∧ IsLiteral quote (quote :: body) := by
  constructor
  · intro h
    exact ⟨prefix_of_closeString? h, isLiteral_of_closeString? h⟩
  · rintro ⟨⟨rest, rfl⟩, hliteral⟩
    obtain ⟨units, hunits, rfl⟩ := isLiteral_cons_iff.1 hliteral
    rw [List.append_assoc]
    exact closeString?_of_units hquote hunits rest

/-- Behind a quote that nothing closes, no literal begins with it. -/
theorem closeString?_eq_none_iff (hquote : quote ≠ '\\') :
    closeString? quote text = none ↔ ∀ front, front <+: quote :: text → ¬ IsLiteral quote front := by
  constructor
  · rintro hopen front hfront hliteral
    obtain ⟨units, -, rfl⟩ := id hliteral
    have hbody : units.flatten ++ [quote] <+: text := (List.cons_prefix_cons.1 hfront).2
    rw [(closeString?_eq_some_iff hquote).2 ⟨hbody, hliteral⟩] at hopen
    cases hopen
  · intro hnone
    by_contra hclosed
    obtain ⟨body, hbody⟩ := Option.ne_none_iff_exists'.1 hclosed
    obtain ⟨hfront, hliteral⟩ := (closeString?_eq_some_iff hquote).1 hbody
    exact hnone (quote :: body) (List.cons_prefix_cons.2 ⟨rfl, hfront⟩) hliteral

/-- The string rule takes a literal from the front of a text if that begins with one. -/
theorem string?_eq_token_iff (hquote : isQuote quote = true) (cs : List Char) :
    string? (quote :: cs) = some ⟨.token .string, text⟩ ↔ text <+: quote :: cs ∧ IsLiteral quote text := by
  have hslash := ne_backslash_of_isQuote hquote
  rw [string?, if_pos hquote]
  constructor
  · intro h
    split at h
    case h_1 body hclosed =>
      cases h
      obtain ⟨hfront, hliteral⟩ := (closeString?_eq_some_iff hslash).1 hclosed
      exact ⟨List.cons_prefix_cons.2 ⟨rfl, hfront⟩, hliteral⟩
    case h_2 => cases h
  · rintro ⟨hfront, hliteral⟩
    obtain ⟨units, -, rfl⟩ := id hliteral
    rw [(closeString?_eq_some_iff hslash).2 ⟨(List.cons_prefix_cons.1 hfront).2, hliteral⟩]

/-- The string rule takes an opening quote alone if no literal begins with it. -/
theorem string?_eq_fault_iff (hquote : isQuote quote = true) (cs : List Char) :
    string? (quote :: cs) = some ⟨.fault (.unterminatedString quote), [quote]⟩ ↔
      ∀ front, front <+: quote :: cs → ¬ IsLiteral quote front := by
  rw [← closeString?_eq_none_iff (ne_backslash_of_isQuote hquote), string?, if_pos hquote]
  cases closeString? quote cs <;> simp

/-- The string rule takes nothing from a text that does not open with a quote. -/
theorem string?_eq_none_iff {window : List Char} :
    string? window = none ↔ ∀ quote, window.head? = some quote → isQuote quote = false := by
  cases window with
  | nil => simp [string?]
  | cons c cs =>
    by_cases hquote : isQuote c = true
    · cases hclosed : closeString? c cs <;> simp [string?, hquote, hclosed]
    · simp [string?, hquote]

/-- The string rule follows the grammar: on a text that opens with a quote it takes the one literal that the text
begins with, or the quote alone where there is none, and on any other text it takes nothing. -/
theorem string?_follows_grammar (window : List Char) :
    (∀ quote, isQuote quote = true → window.head? = some quote →
      (∀ text, string? window = some ⟨.token .string, text⟩ ↔ text <+: window ∧ IsLiteral quote text) ∧
      (∀ a b, a <+: window → b <+: window → IsLiteral quote a → IsLiteral quote b → a = b) ∧
      (string? window = some ⟨.fault (.unterminatedString quote), [quote]⟩ ↔
        ∀ text, text <+: window → ¬ IsLiteral quote text)) ∧
    (string? window = none ↔ ∀ quote, window.head? = some quote → isQuote quote = false) := by
  refine ⟨fun quote hquote hhead => ?_, string?_eq_none_iff⟩
  obtain ⟨cs, rfl⟩ := List.head?_eq_some_iff.1 hhead
  refine ⟨fun text => string?_eq_token_iff hquote cs, fun a b ha hb hliteral hliteral' => ?_,
    string?_eq_fault_iff hquote cs⟩
  -- both are what the rule takes
  have hfirst := (string?_eq_token_iff hquote cs).2 ⟨ha, hliteral⟩
  rw [(string?_eq_token_iff hquote cs).2 ⟨hb, hliteral'⟩] at hfirst
  cases hfirst
  rfl

example : string? "'a\\'\\\\'b'".toList = some ⟨.token .string, "'a\\'\\\\'".toList⟩ := by decide

end Offside.Lexeme
