import Offside.Proofs.Lexeme.Context

/-!
# The order of the rules

Classification tries the rules in an order, and most of that order is a matter of taste: on no text do two rules
take something, but for one sort of text. Where three equal quotes open a text, they open a block, and the first two
of them are an empty literal as well. So comments have to be tried before strings, and the other rules can be
tried at any time.
-/

namespace Offside

open Text Lexeme

/-- Whether a text opens with three equal quotes. -/
def OpensBlock (window : List Char) : Prop :=
  ∃ quote rest, isQuote quote = true ∧ window = quote :: quote :: quote :: rest

namespace Rule

variable {window : List Char} {rules : List Rule}

/-- Every rule is tried. -/
theorem mem_priority (rule : Rule) : rule ∈ priority := by
  cases rule <;> decide

/-- The string rule answers for every text that opens with a quote. -/
theorem isSome_apply_string {quote : Char} (hquote : isQuote quote = true) (cs : List Char) :
    (Rule.apply (quote :: cs) .string).isSome = true := by
  cases hclosed : closeString? quote cs <;> simp [apply, string?, hquote, hclosed]

/-- On a text that opens with a quote, a comment is a block. -/
theorem opensBlock_of_comment {quote : Char} {cs : List Char} (hquote : isQuote quote = true)
    (h : (Rule.apply (quote :: cs) .comment).isSome = true) : OpensBlock (quote :: cs) := by
  have hblock : [quote, quote] <+: cs := by
    by_contra hnone
    simp [apply, (comment?_eq_none_iff hquote cs).2 hnone] at h
  obtain ⟨rest, rfl⟩ := hblock
  exact ⟨quote, rest, hquote, rfl⟩

/-- From a text that opens with three equal quotes a comment and a string are taken, and nothing else. -/
theorem isSome_apply_iff (h : OpensBlock window) (rule : Rule) :
    (Rule.apply window rule).isSome = true ↔ rule = .comment ∨ rule = .string := by
  obtain ⟨quote, rest, hquote, rfl⟩ := h
  constructor
  · intro hsome
    obtain ⟨lexeme, happly⟩ := Option.isSome_iff_exists.1 hsome
    exact comment_or_string_of_isQuote (opensWith_of_apply happly) hquote
  · rintro (rfl | rfl)
    · have hblock := (comment?_eq_none_iff hquote (quote :: quote :: rest)).not_left.2 ⟨rest, rfl⟩
      simpa [apply, Option.isSome_iff_ne_none] using hblock
    · exact isSome_apply_string hquote _

/-- From any other text at most one rule takes something. -/
theorem eq_of_isSome_apply (h : ¬ OpensBlock window) {a b : Rule} (ha : (Rule.apply window a).isSome = true)
    (hb : (Rule.apply window b).isSome = true) : a = b := by
  obtain ⟨x, hx⟩ := Option.isSome_iff_exists.1 ha
  obtain ⟨y, hy⟩ := Option.isSome_iff_exists.1 hb
  obtain ⟨c, cs, rfl⟩ := List.exists_cons_of_ne_nil (isFront_of_apply hx).window_ne_nil
  rcases eq_or_isQuote_of_opensWith (opensWith_of_apply hx) (opensWith_of_apply hy) with heq | hquote
  · exact heq
  -- without a block, a quote opens strings only
  have hstring : ∀ rule, rule.opensWith c = true → (Rule.apply (c :: cs) rule).isSome = true →
      rule = .string := by
    intro rule hopens hsome
    rcases comment_or_string_of_isQuote hopens hquote with rfl | rfl
    · exact absurd (opensBlock_of_comment hquote hsome) h
    · rfl
  rw [hstring a (opensWith_of_apply hx) ha, hstring b (opensWith_of_apply hy) hb]

/-- What is not in front of the first place of a list where something stands comes later. -/
theorem idxOf_lt_idxOf {a b : Rule} (hne : a ≠ b) (before after : List Rule) (hb : b ∉ before) :
    (before ++ a :: after).idxOf a < (before ++ a :: after).idxOf b := by
  have hfirst : (before ++ a :: after).idxOf a ≤ before.length := by
    rw [List.idxOf_append]
    split
    · exact List.idxOf_le_length
    · simp
  have hlater : before.length < (before ++ a :: after).idxOf b := by
    rw [List.idxOf_append_of_notMem hb, List.idxOf_cons_ne _ hne]
    omega
  exact hfirst.trans_lt hlater

/-- Where comments are tried before strings, all rules together classify as they do in their own order. -/
theorem classifyBy_eq_classify (hall : ∀ rule, rule ∈ rules) (horder : rules.idxOf .comment < rules.idxOf .string)
    (window : List Char) : classifyBy rules window = classify window := by
  cases window with
  | nil => rfl
  | cons c cs =>
    cases hfound : rules.findSome? (Rule.apply (c :: cs)) with
    | none =>
      have hnone : ∀ rule, Rule.apply (c :: cs) rule = none := fun rule =>
        List.findSome?_eq_none_iff.1 hfound rule (hall rule)
      have hpriority : priority.findSome? (Rule.apply (c :: cs)) = none :=
        List.findSome?_eq_none_iff.2 fun rule _ => hnone rule
      rw [classify, classifyBy, classifyBy, hfound, hpriority]
    | some lexeme =>
      obtain ⟨before, rule, after, rfl, happly, hbefore⟩ := List.findSome?_eq_some_iff.1 hfound
      rw [classifyBy, hfound]
      refine (classify_of_apply happly ?_).symm
      rintro rfl
      have hearlier : Rule.comment ∈ before := by
        by_contra hlater
        have hlast : (before ++ .string :: after).idxOf .string < (before ++ .string :: after).idxOf .comment :=
          idxOf_lt_idxOf (by decide) before after hlater
        omega
      simpa [apply] using hbefore .comment hearlier

/-- Where strings are tried before comments, three quotes are classified as an empty literal. -/
theorem idxOf_comment_lt (h : ∀ window, classifyBy rules window = classify window) :
    rules.idxOf .comment < rules.idxOf .string := by
  have hquotes := h ['"', '"', '"']
  have hopens : OpensBlock ['"', '"', '"'] := ⟨'"', [], rfl, rfl⟩
  have hread : classify ['"', '"', '"'] = some ⟨.comment, ['"', '"', '"']⟩ := by decide
  rw [hread, classifyBy, Option.some.injEq] at hquotes
  cases hfound : rules.findSome? (Rule.apply ['"', '"', '"']) with
  | none =>
    rw [hfound] at hquotes
    cases hquotes
  | some lexeme =>
    rw [hfound, Option.getD_some] at hquotes
    subst hquotes
    obtain ⟨before, rule, after, rfl, happly, hbefore⟩ := List.findSome?_eq_some_iff.1 hfound
    rcases (isSome_apply_iff hopens rule).1 (by rw [happly]; rfl) with rfl | rfl
    · refine idxOf_lt_idxOf (by decide) before after fun hstring => ?_
      exact absurd (hbefore .string hstring) (by decide)
    · exact absurd happly (by decide)

end Rule

/-- The rules can be tried in any order that has comments before strings, and in no other: three equal quotes
open both, and no other text opens two rules. Whatever the text is, classification gives a beginning of it. -/
theorem ruleOrder_matters_iff :
    (∀ rules : List Rule, rules.Perm Rule.priority →
      ((∀ window, classifyBy rules window = classify window) ↔ rules.idxOf .comment < rules.idxOf .string)) ∧
    ∀ window : List Char,
      (OpensBlock window → ∀ rule, (Rule.apply window rule).isSome = true ↔ rule = .comment ∨ rule = .string) ∧
      (¬ OpensBlock window → ∀ a b, (Rule.apply window a).isSome = true →
        (Rule.apply window b).isSome = true → a = b) ∧
      (window ≠ [] → ∃ lexeme, classify window = some lexeme ∧ lexeme.text ≠ [] ∧ lexeme.text <+: window) := by
  refine ⟨fun rules hperm => ⟨Rule.idxOf_comment_lt, fun horder => ?_⟩, fun window => ⟨?_, ?_, ?_⟩⟩
  · exact Rule.classifyBy_eq_classify (fun rule => hperm.mem_iff.2 rule.mem_priority) horder
  · exact Rule.isSome_apply_iff
  · exact fun hplain a b => Rule.eq_of_isSome_apply hplain
  · intro hne
    obtain ⟨lexeme, hlexeme⟩ := exists_classify_of_ne_nil hne
    exact ⟨lexeme, hlexeme, isFront_of_classify hlexeme⟩

end Offside
