import Mathlib.Tactic.ByContra
import Mathlib.Tactic.Tauto
import Offside.Proofs.Lexeme.Takes

/-!
# First characters of lexemes

Each rule only looks at texts that open with characters of its own, and no character opens two rules
but a quote, which opens comments and strings. So the order in which most rules are tried does not
matter.
-/

namespace Offside

open Text

namespace Rule

/-- Whether a text that opens with a character can be one for the rule. -/
def opensWith (c : Char) : Rule → Bool
  | .blank => isBlank c
  | .lineEnd => isLineEnd c
  | .comment => c == '#' || isQuote c
  | .string => isQuote c
  | .number => c.isDigit
  | .word => isNameStart c
  | .operator => Operator.all.any fun symbol => symbol.spelling.toList.head? == some c
  | .delimiter => Delimiter.all.any fun symbol => symbol.spelling.toList.head? == some c

/-- The characters that open a rule, where they are few. -/
def openings : Rule → List Char
  | .blank => [' ', '\t', '\x0c']
  | .lineEnd => ['\n', '\r']
  | .comment => ['#', '"', '\'']
  | .string => ['"', '\'']
  | .operator => Operator.all.filterMap fun symbol => symbol.spelling.toList.head?
  | .delimiter => Delimiter.all.filterMap fun symbol => symbol.spelling.toList.head?
  | .number | .word => []

/-- Only numbers and names open with one of many characters. -/
theorem mem_openings {rule : Rule} {c : Char} (hnumber : rule ≠ .number) (hword : rule ≠ .word)
    (h : rule.opensWith c = true) : c ∈ rule.openings := by
  cases rule with
  | number => exact absurd rfl hnumber
  | word => exact absurd rfl hword
  | operator =>
    obtain ⟨symbol, hmem, hhead⟩ := List.any_eq_true.1 h
    exact List.mem_filterMap.2 ⟨symbol, hmem, beq_iff_eq.1 hhead⟩
  | delimiter =>
    obtain ⟨symbol, hmem, hhead⟩ := List.any_eq_true.1 h
    exact List.mem_filterMap.2 ⟨symbol, hmem, beq_iff_eq.1 hhead⟩
  | _ => simpa [opensWith, openings, isBlank, isLineEnd, isQuote, or_assoc] using h

/-- No character opens two rules, except that a quote opens a comment or a string. -/
theorem eq_or_isQuote_of_mem_openings {a b : Rule} {c : Char} (ha : c ∈ a.openings)
    (hb : b.opensWith c = true) : a = b ∨ isQuote c = true := by
  have htable : (a.openings.all fun c => priority.all fun b =>
      !b.opensWith c || (a == b || isQuote c)) = true := by
    cases a <;> decide
  have hentry := List.all_eq_true.1 (List.all_eq_true.1 htable c ha) b (by cases b <;> decide)
  simpa [hb] using hentry

/-- No digit opens a name. -/
theorem isNameStart_of_isDigit {c : Char} (h : c.isDigit = true) : isNameStart c = false := by
  by_contra hname
  rw [Bool.not_eq_false, isNameStart, Bool.or_eq_true, beq_iff_eq] at hname
  rcases hname with halpha | rfl
  · delta Char.isAlpha Char.isUpper Char.isLower at halpha
    simp only [Char.isDigit, Bool.or_eq_true, Bool.and_eq_true, decide_eq_true_eq,
      UInt32.le_iff_toNat_le, ge_iff_le] at h halpha
    change 48 ≤ c.toNat ∧ c.toNat ≤ 57 at h
    change (65 ≤ c.toNat ∧ c.toNat ≤ 90) ∨ (97 ≤ c.toNat ∧ c.toNat ≤ 122) at halpha
    omega
  · exact absurd h (by decide)

/-- No character opens two rules, except that a quote opens a comment or a string. -/
theorem eq_or_isQuote_of_opensWith {a b : Rule} {c : Char} (ha : a.opensWith c = true)
    (hb : b.opensWith c = true) : a = b ∨ isQuote c = true := by
  by_cases hfew : a ≠ .number ∧ a ≠ .word
  · exact eq_or_isQuote_of_mem_openings (mem_openings hfew.1 hfew.2 ha) hb
  by_cases hfew' : b ≠ .number ∧ b ≠ .word
  · exact (eq_or_isQuote_of_mem_openings (mem_openings hfew'.1 hfew'.2 hb) ha).imp_left Eq.symm
  obtain rfl | rfl : a = .number ∨ a = .word := by tauto
  · obtain rfl | rfl : b = .number ∨ b = .word := by tauto
    · exact .inl rfl
    · exact absurd hb (by simp [opensWith, isNameStart_of_isDigit ha])
  · obtain rfl | rfl : b = .number ∨ b = .word := by tauto
    · exact absurd ha (by simp [opensWith, isNameStart_of_isDigit hb])
    · exact .inl rfl

/-- A quote opens only comments and strings. -/
theorem comment_or_string_of_isQuote {rule : Rule} {c : Char} (h : rule.opensWith c = true)
    (hquote : isQuote c = true) : rule = .comment ∨ rule = .string := by
  have htable : (['"', '\''].all fun c => priority.all fun rule =>
      !rule.opensWith c || (rule == .comment || rule == .string)) = true := by
    decide
  have hmem : c ∈ ['"', '\''] := by simpa [isQuote] using hquote
  have hentry := List.all_eq_true.1 (List.all_eq_true.1 htable c hmem) rule (by cases rule <;> decide)
  simpa [h] using hentry

/-- A rule takes something only from a text that opens with a character of its own. -/
theorem opensWith_of_apply {rule : Rule} {c : Char} {cs : List Char} {lexeme : Lexeme}
    (h : rule.apply (c :: cs) = some lexeme) : rule.opensWith c = true := by
  cases takes_of_apply h with
  | blanks htext hne =>
    rw [htext] at hne
    exact of_takeWhile_cons_ne_nil hne
  | pair hwindow =>
    cases hwindow
    rfl
  | single hwindow hend =>
    cases hwindow
    exact hend
  | remark hwindow =>
    cases hwindow
    rfl
  | block hwindow hquote =>
    cases hwindow
    simp [opensWith, hquote]
  | literal hwindow hquote hclosed =>
    cases hwindow
    exact hquote
  | unclosed hwindow hquote hopen =>
    cases hwindow
    exact hquote
  | digits htext hne =>
    rw [htext] at hne
    exact of_takeWhile_cons_ne_nil hne
  | fraction hwhole hne hpoint hdigits hne' =>
    rw [hwhole] at hne
    exact of_takeWhile_cons_ne_nil hne
  | name hwindow hstart =>
    cases hwindow
    exact hstart
  | @operator symbol count hcount htext =>
    refine List.any_eq_true.2 ⟨symbol, by cases symbol <;> decide, ?_⟩
    rw [← htext]
    simp [List.head?_take, hcount]
  | @delimiter symbol htext =>
    refine List.any_eq_true.2 ⟨symbol, by cases symbol <;> decide, ?_⟩
    rw [← htext]
    simp

end Rule

end Offside
