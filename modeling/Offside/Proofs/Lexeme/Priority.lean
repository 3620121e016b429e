import Offside.Proofs.Lexeme.Opening
import Offside.Scan.Step

/-!
# Which rule classification uses

The rule that takes something from a text is the one that classification uses, as long as a string is
not taken where a comment could be. A text from which no rule takes anything gives its first character
as a fault.

A margin tries the rules for blanks, line ends and comments in an order of its own. At most one of them
takes something, so a margin is cut where classification cuts it, and left where classification finds a
token or a fault.
-/

namespace Offside

open Text

namespace Reading

/-- Whether a lexeme is read without leaving a token or a fault of its own, layout aside. -/
def isTrivia : Reading → Bool
  | .blank | .lineEnd | .comment => true
  | .token _ | .fault _ => false

end Reading

namespace Rule

/-- The rules for what separates tokens. -/
def trivia : List Rule := [.blank, .lineEnd, .comment]

/-- The rules for tokens. -/
def proper : List Rule := [.string, .number, .word, .operator, .delimiter]

/-- Every rule is for trivia or for tokens. -/
theorem mem_trivia_or_proper (rule : Rule) : rule ∈ trivia ∨ rule ∈ proper := by
  cases rule <;> decide

/-- A rule for trivia reads trivia. -/
theorem isTrivia_of_mem_trivia {rule : Rule} {window : List Char} {lexeme : Lexeme}
    (hmem : rule ∈ trivia) (h : rule.apply window = some lexeme) : lexeme.reading.isTrivia = true := by
  cases takes_of_apply h <;> first
    | rfl
    | exact absurd hmem (by decide)

/-- A rule for tokens reads a token or a fault. -/
theorem isTrivia_of_mem_proper {rule : Rule} {window : List Char} {lexeme : Lexeme}
    (hmem : rule ∈ proper) (h : rule.apply window = some lexeme) : lexeme.reading.isTrivia = false := by
  cases takes_of_apply h <;> first
    | rfl
    | exact absurd hmem (by decide)

/-- No two rules for trivia take something from one text. -/
theorem eq_of_mem_trivia {a b : Rule} {window : List Char} {x y : Lexeme} (ha : a ∈ trivia)
    (hb : b ∈ trivia) (hx : a.apply window = some x) (hy : b.apply window = some y) : a = b := by
  obtain ⟨c, cs, rfl⟩ := List.exists_cons_of_ne_nil (isFront_of_apply hx).window_ne_nil
  have hac := opensWith_of_apply hx
  have hbc := opensWith_of_apply hy
  rcases eq_or_isQuote_of_opensWith hac hbc with heq | hquote
  · exact heq
  · have hcomment : ∀ r ∈ trivia, r.opensWith c = true → r = .comment := by
      intro r hr hopens
      rcases comment_or_string_of_isQuote hopens hquote with rfl | rfl
      · rfl
      · exact absurd hr (by decide)
    rw [hcomment a ha hac, hcomment b hb hbc]

/-- The order in which rules for trivia are tried does not matter. -/
theorem findSome?_trivia {rules : List Rule} {window : List Char}
    (hmem : ∀ rule, rule ∈ rules ↔ rule ∈ trivia) :
    rules.findSome? (apply window) = trivia.findSome? (apply window) := by
  cases htrivia : trivia.findSome? (apply window) with
  | none =>
    rw [List.findSome?_eq_none_iff] at htrivia ⊢
    exact fun rule hrule => htrivia rule ((hmem rule).1 hrule)
  | some lexeme =>
    obtain ⟨rule, hrule, happly⟩ := List.exists_of_findSome?_eq_some htrivia
    obtain ⟨found, hfound⟩ : ∃ found, rules.findSome? (apply window) = some found := by
      rw [← Option.isSome_iff_exists, List.findSome?_isSome_iff]
      exact ⟨rule, (hmem rule).2 hrule, by rw [happly]; rfl⟩
    obtain ⟨other, hother, happly'⟩ := List.exists_of_findSome?_eq_some hfound
    have hsame := eq_of_mem_trivia ((hmem other).1 hother) hrule happly' happly
    rw [hfound, ← happly, ← happly', hsame]

end Rule

open Rule

/-- Classification tries the rules for trivia before those for tokens. -/
theorem classify_eq_of_ne_nil {window : List Char} (h : window ≠ []) :
    classify window =
      some (((trivia.findSome? (Rule.apply window)).or (proper.findSome? (Rule.apply window))).getD
        ⟨.fault (.unrecognisedCharacter (window.head h)), [window.head h]⟩) := by
  obtain ⟨c, cs, rfl⟩ := List.exists_cons_of_ne_nil h
  rw [← List.findSome?_append]
  rfl

/-- A lexeme is what a rule takes, a string only where no comment is, or else it is one character that
no rule takes. -/
theorem classify_cases {window : List Char} {lexeme : Lexeme} (h : classify window = some lexeme) :
    (∃ rule, Rule.apply window rule = some lexeme ∧ (rule = .string → Lexeme.comment? window = none)) ∨
      ∃ c cs, window = c :: cs ∧ (∀ rule, Rule.apply window rule = none) ∧
        lexeme = ⟨.fault (.unrecognisedCharacter c), [c]⟩ := by
  have hne := (isFront_of_classify h).window_ne_nil
  rw [classify_eq_of_ne_nil hne] at h
  cases htrivia : trivia.findSome? (Rule.apply window) with
  | some found =>
    rw [htrivia] at h
    obtain rfl : found = lexeme := Option.some.inj h
    obtain ⟨rule, hmem, happly⟩ := List.exists_of_findSome?_eq_some htrivia
    exact .inl ⟨rule, happly, fun hstring => absurd hmem (by rw [hstring]; decide)⟩
  | none =>
    rw [htrivia, Option.none_or] at h
    have hnone := List.findSome?_eq_none_iff.1 htrivia
    cases hproper : proper.findSome? (Rule.apply window) with
    | some found =>
      rw [hproper] at h
      obtain rfl : found = lexeme := Option.some.inj h
      obtain ⟨rule, -, happly⟩ := List.exists_of_findSome?_eq_some hproper
      have hcomment : Rule.apply window .comment = none := hnone .comment (by decide)
      exact .inl ⟨rule, happly, fun _ => by simpa [Rule.apply] using hcomment⟩
    | none =>
      rw [hproper] at h
      have hnone' := List.findSome?_eq_none_iff.1 hproper
      refine .inr ⟨window.head hne, window.tail, (List.cons_head_tail hne).symm, ?_, (Option.some.inj h).symm⟩
      exact fun rule => (mem_trivia_or_proper rule).elim (hnone rule) (hnone' rule)

/-- The rule that takes something is the one that is used, a string only where no comment is. -/
theorem classify_of_apply {rule : Rule} {window : List Char} {lexeme : Lexeme}
    (h : Rule.apply window rule = some lexeme)
    (hstring : rule = .string → Lexeme.comment? window = none) : classify window = some lexeme := by
  obtain ⟨c, cs, rfl⟩ := List.exists_cons_of_ne_nil (isFront_of_apply h).window_ne_nil
  obtain ⟨used, hused⟩ : ∃ used, classify (c :: cs) = some used := ⟨_, rfl⟩
  rcases classify_cases hused with ⟨other, hother, hstring'⟩ | ⟨d, ds, -, hnone, -⟩
  · rcases eq_or_isQuote_of_opensWith (opensWith_of_apply h) (opensWith_of_apply hother) with rfl | hquote
    · rw [hused, ← hother, h]
    -- both rules open with a quote: a comment excludes a string, so they are the same rule
    · have hcomment : ∀ x, Rule.apply (c :: cs) .comment = some x → Lexeme.comment? (c :: cs) ≠ none := by
        intro x hx hnone
        simp [Rule.apply, hnone] at hx
      rcases comment_or_string_of_isQuote (opensWith_of_apply h) hquote with rfl | rfl <;>
        rcases comment_or_string_of_isQuote (opensWith_of_apply hother) hquote with rfl | rfl
      · rw [hused, ← hother, h]
      · exact absurd (hstring' rfl) (hcomment _ h)
      · exact absurd (hstring rfl) (hcomment _ hother)
      · rw [hused, ← hother, h]
  · rw [hnone rule] at h
    cases h

/-- In front of a token or a fault no rule for trivia takes anything. -/
theorem Rule.apply_eq_none_of_mem_trivia {rule : Rule} {window : List Char} {lexeme : Lexeme}
    (hmem : rule ∈ trivia) (h : classify window = some lexeme) (htrivia : lexeme.reading.isTrivia = false) :
    Rule.apply window rule = none := by
  by_contra hsome
  obtain ⟨found, hfound⟩ := Option.ne_none_iff_exists'.1 hsome
  rw [classify_of_apply hfound fun hstring => absurd hmem (by rw [hstring]; decide)] at h
  obtain rfl := Option.some.inj h
  rw [isTrivia_of_mem_trivia hmem hfound] at htrivia
  cases htrivia

/-- A margin is cut where classification cuts it, and left where that finds a token or a fault. -/
theorem findSome?_marginRules (width : Option Nat) (window : List Char) :
    (ScanState.marginRules width).findSome? (Rule.apply window) =
      (classify window).filter fun lexeme => lexeme.reading.isTrivia := by
  have horder : ∀ rule, rule ∈ ScanState.marginRules width ↔ rule ∈ trivia := by
    intro rule
    cases width <;> simp [ScanState.marginRules, trivia] <;> tauto
  rw [findSome?_trivia horder]
  cases htrivia : trivia.findSome? (Rule.apply window) with
  | some lexeme =>
    obtain ⟨rule, hmem, happly⟩ := List.exists_of_findSome?_eq_some htrivia
    have hused : classify window = some lexeme :=
      classify_of_apply happly fun hstring => absurd hmem (by rw [hstring]; decide)
    rw [hused, Option.filter_some, isTrivia_of_mem_trivia hmem happly]
    rfl
  | none =>
    have hnone := List.findSome?_eq_none_iff.1 htrivia
    symm
    rw [Option.filter_eq_none_iff]
    intro lexeme hused
    rcases classify_cases hused with ⟨rule, happly, -⟩ | ⟨c, cs, -, -, rfl⟩
    · rcases mem_trivia_or_proper rule with hmem | hmem
      · rw [hnone rule hmem] at happly
        cases happly
      · simp [isTrivia_of_mem_proper hmem happly]
    · simp [Reading.isTrivia]

end Offside
