import Offside.Proofs.Lexeme.Context
import Offside.Proofs.Lexeme.Shapes

/-!
# Longest matches

Whether a whole text is a number, a name, an operator or a delimiter can be asked without going over it from the
front: numbers and names have a shape, and the others are looked up. The rules for these four classes take the
longest beginning of a text that answers yes, and nothing where no beginning does.

For each rule there are two things to show. What it takes has a kind as a whole text, and each beginning with a
kind is no longer than what the rule takes.
-/

namespace Offside

open Text Lexeme

/-- The kind of a whole text as a number, by its shape. -/
def numberKind? (start : Position) (text : List Char) : Option Kind :=
  if (Token.spanning .number text start).isWellShaped then some .number else none

/-- The kind of a whole text as a name, by its shape: a keyword if it is reserved. -/
def wordKind? (start : Position) (text : List Char) : Option Kind :=
  if (Token.spanning .identifier text start).isWellShaped then
    some ((Keyword.ofText? text).elim .identifier .keyword)
  else none

/-- Numerals are what has the shape of numbers. -/
theorem numberKind?_eq (start : Position) (text : List Char) :
    numberKind? start text = if Token.isNumeral text then some .number else none := rfl

/-- Names are what has the shape of names, reserved or not. -/
theorem wordKind?_eq (start : Position) (text : List Char) :
    wordKind? start text = if Token.isName text then some (.ofWord text) else none := by
  have hkind : (Keyword.ofText? text).elim Kind.identifier Kind.keyword = .ofWord text := by
    rw [Kind.ofWord]
    cases Keyword.ofText? text <;> rfl
  rw [← hkind]
  rfl

/-- The kind of a whole text that spells an operator. -/
def operatorKind? (text : List Char) : Option Kind :=
  (Operator.ofText? text).map .operator

/-- The kind of a whole text that spells a delimiter. -/
def delimiterKind? (text : List Char) : Option Kind :=
  (Delimiter.ofText? text).map .delimiter

/-- A beginning of a text that has a kind, while no longer one has any. -/
structure IsLongestFront (kindOf? : List Char → Option Kind) (window text : List Char) (kind : Kind) : Prop where
  front : text <+: window
  kind_eq : kindOf? text = some kind
  longest : ∀ other, other <+: window → (kindOf? other).isSome = true → other.length ≤ text.length

namespace Rule

/-- A rule takes the longest beginning of a text that has a kind, as a token of this kind, and it takes nothing
where no beginning has a kind. -/
structure TakesLongest (rule : Rule) (kindOf? : List Char → Option Kind) (window : List Char) : Prop where
  some_iff : ∀ lexeme, Rule.apply window rule = some lexeme ↔
    ∃ kind text, lexeme = ⟨.token kind, text⟩ ∧ IsLongestFront kindOf? window text kind
  none_iff : Rule.apply window rule = none ↔ ∀ front, front <+: window → kindOf? front = none

variable {rule : Rule} {kindOf? : List Char → Option Kind} {window front : List Char}

/-- A rule takes the longest beginning if what it takes has a kind and covers each beginning that has one. -/
theorem takesLongest_of_covers
    (hkind : ∀ lexeme, Rule.apply window rule = some lexeme →
      ∃ kind, lexeme.reading = .token kind ∧ kindOf? lexeme.text = some kind)
    (hcovers : ∀ front, front <+: window → (kindOf? front).isSome = true →
      ∃ lexeme, Rule.apply window rule = some lexeme ∧ front <+: lexeme.text) :
    rule.TakesLongest kindOf? window where
  some_iff := by
    rintro ⟨reading, text⟩
    constructor
    · intro h
      obtain ⟨kind, rfl, hsome⟩ := hkind _ h
      refine ⟨kind, text, rfl, (isFront_of_apply h).2, hsome, fun other hother hsome' => ?_⟩
      obtain ⟨lexeme, hlexeme, hcovered⟩ := hcovers other hother hsome'
      rw [h] at hlexeme
      obtain rfl := Option.some.inj hlexeme
      exact hcovered.length_le
    · rintro ⟨kind, text', heq, hlongest⟩
      obtain ⟨rfl, rfl⟩ := Lexeme.mk.inj heq
      -- the rule takes something that covers the text, and that is no longer than the text
      obtain ⟨lexeme, hlexeme, hcovered⟩ := hcovers text hlongest.front (by rw [hlongest.kind_eq]; rfl)
      obtain ⟨kind', hreading, hsome⟩ := hkind lexeme hlexeme
      have hlength := hlongest.longest lexeme.text (isFront_of_apply hlexeme).2 (by rw [hsome]; rfl)
      have htext : text = lexeme.text := hcovered.eq_of_length_le hlength
      have hsame : kind = kind' := by
        rw [← htext, hlongest.kind_eq] at hsome
        exact Option.some.inj hsome
      rw [hlexeme, hsame, htext, ← hreading]
  none_iff := by
    constructor
    · intro hnone front hfront
      by_contra hsome
      obtain ⟨lexeme, hlexeme, -⟩ := hcovers front hfront (Option.isSome_iff_ne_none.2 hsome)
      rw [hnone] at hlexeme
      cases hlexeme
    · intro hnone
      by_contra hsome
      obtain ⟨lexeme, hlexeme⟩ := Option.ne_none_iff_exists'.1 hsome
      obtain ⟨kind, -, hkind⟩ := hkind lexeme hlexeme
      rw [hnone lexeme.text (isFront_of_apply hlexeme).2] at hkind
      cases hkind

end Rule

namespace Token

/-- A numeral is a run of digits, or two of them with a point in between. -/
theorem digits_or_fraction_of_isNumeral {text : List Char} (h : isNumeral text = true) :
    (text ≠ [] ∧ ∀ c ∈ text, c.isDigit = true) ∨
      ∃ whole digits, text = whole ++ '.' :: digits ∧ whole ≠ [] ∧ digits ≠ [] ∧
        (∀ c ∈ whole, c.isDigit = true) ∧ ∀ c ∈ digits, c.isDigit = true := by
  have hsplit := List.takeWhile_append_dropWhile (p := Char.isDigit) (l := text)
  have hwhole : ∀ c ∈ text.takeWhile Char.isDigit, c.isDigit = true := fun c hc => List.mem_takeWhile_imp hc
  simp only [isNumeral, Bool.and_eq_true, Bool.not_eq_true', List.isEmpty_eq_false_iff] at h
  obtain ⟨hne, hrest⟩ := h
  split at hrest
  case h_1 hnil =>
    rw [hnil, List.append_nil] at hsplit
    rw [hsplit] at hne hwhole
    exact .inl ⟨hne, hwhole⟩
  case h_2 c digits hpoint =>
    simp only [Bool.and_eq_true, beq_iff_eq, Bool.not_eq_true', List.isEmpty_eq_false_iff, List.all_eq_true] at hrest
    obtain ⟨⟨rfl, hne'⟩, hdigits⟩ := hrest
    rw [hpoint] at hsplit
    exact .inr ⟨_, digits, hsplit.symm, hne, hne', hwhole, hdigits⟩

end Token

namespace Lexeme

variable {window front : List Char}

/-- A text that opens with digits has a number at its front, which covers them. -/
theorem exists_number?_of_digits (hne : window.takeWhile Char.isDigit ≠ []) :
    ∃ text, number? window = some text ∧ window.takeWhile Char.isDigit <+: text := by
  rw [number?, nonempty?, if_neg (by simpa using hne), Option.map_some]
  refine ⟨_, rfl, ?_⟩
  split
  · split
    · exact List.prefix_append _ _
    · exact List.prefix_refl _
  · exact List.prefix_refl _

/-- The number at the front of a text covers each numeral that the text begins with. -/
theorem exists_number?_of_isNumeral (hfront : front <+: window) (h : Token.isNumeral front = true) :
    ∃ text, number? window = some text ∧ front <+: text := by
  rcases Token.digits_or_fraction_of_isNumeral h with
    ⟨hne, hdigits⟩ | ⟨whole, digits, rfl, hne, hne', hwhole, hdigits⟩
  · have hrun : front <+: window.takeWhile Char.isDigit := isPrefix_takeWhile hfront hdigits
    obtain ⟨text, htext, hcovered⟩ := exists_number?_of_digits (hrun.ne_nil hne)
    exact ⟨text, htext, hrun.trans hcovered⟩
  · obtain ⟨rest, rfl⟩ := hfront
    -- all the digits behind the point belong to the number, and those of the numeral are the first of them
    have hrun : digits <+: (digits ++ rest).takeWhile Char.isDigit := isPrefix_takeWhile ⟨rest, rfl⟩ hdigits
    have hnumber := number?_of_fraction hne (hrun.ne_nil hne') hwhole (fun _ => List.mem_takeWhile_imp)
      (head?_dropWhile_eq_false Char.isDigit (digits ++ rest))
    rw [List.append_assoc, List.cons_append, List.takeWhile_append_dropWhile] at hnumber
    refine ⟨_, by rw [List.append_assoc]; exact hnumber, ?_⟩
    rw [List.prefix_append_right_inj, List.cons_prefix_cons]
    exact ⟨rfl, hrun⟩

/-- The name at the front of a text covers each name that the text begins with. -/
theorem exists_word?_of_isName (hfront : front <+: window) (h : Token.isName front = true) :
    ∃ text, word? window = some text ∧ front <+: text := by
  cases front with
  | nil => cases h
  | cons c cs =>
    obtain ⟨rest, rfl⟩ := hfront
    simp only [Token.isName, Bool.and_eq_true, List.all_eq_true] at h
    refine ⟨c :: (cs ++ rest).takeWhile isNameChar, by rw [List.cons_append, word?, if_pos h.1], ?_⟩
    exact List.cons_prefix_cons.2 ⟨rfl, isPrefix_takeWhile (List.prefix_append cs rest) h.2⟩

/-- The operator at the front of a text covers each operator that the text begins with. -/
theorem exists_operator?_of_ofText? {symbol : Operator} (hfront : front <+: window)
    (h : Operator.ofText? front = some symbol) : ∃ found, operator? window = some found ∧ front <+: found.2 := by
  have hlength : front.length = 1 ∨ front.length = 2 := by
    rw [Operator.ofText?_eq_some_iff.1 h]
    cases symbol <;> decide
  rw [operator?_eq]
  rcases hlength with hone | htwo
  · have htake : window.take 1 = front := by
      rw [← hone]
      exact (List.prefix_iff_eq_take.1 hfront).symm
    rw [htake, h]
    cases hboth : Operator.ofText? (window.take 2) with
    | none => exact ⟨_, rfl, List.prefix_refl _⟩
    | some longer =>
      refine ⟨_, rfl, ?_⟩
      rw [← htake]
      exact List.take_prefix_take_left (by decide)
  · have htake : window.take 2 = front := by
      rw [← htwo]
      exact (List.prefix_iff_eq_take.1 hfront).symm
    rw [htake, h]
    exact ⟨_, rfl, List.prefix_refl _⟩

/-- The delimiter at the front of a text is the one that the text begins with. -/
theorem exists_delimiter?_of_ofText? {symbol : Delimiter} (hfront : front <+: window)
    (h : Delimiter.ofText? front = some symbol) : ∃ found, delimiter? window = some found ∧ front <+: found.2 := by
  have hlength : front.length = 1 := by
    rw [Delimiter.ofText?_eq_some_iff.1 h]
    cases symbol <;> decide
  have htake : window.take 1 = front := by
    rw [← hlength]
    exact (List.prefix_iff_eq_take.1 hfront).symm
  rw [delimiter?, htake, h]
  exact ⟨_, rfl, List.prefix_refl _⟩

end Lexeme

namespace Rule

variable (start : Position) (window : List Char)

/-- The number rule takes the longest numeral. -/
theorem takesLongest_number : Rule.number.TakesLongest (numberKind? start) window := by
  refine takesLongest_of_covers (fun lexeme h => ?_) (fun front hfront hsome => ?_)
  · have htakes := takes_of_apply h
    refine ⟨.number, by cases htakes <;> rfl, ?_⟩
    rw [numberKind?_eq, if_pos (isNumeral_of_takes htakes)]
  · have hnumeral : Token.isNumeral front = true := by simpa [numberKind?_eq] using hsome
    obtain ⟨text, htext, hcovered⟩ := exists_number?_of_isNumeral hfront hnumeral
    exact ⟨⟨.token .number, text⟩, by rw [apply, htext]; rfl, hcovered⟩

/-- The name rule takes the longest name, whether it is reserved or not. -/
theorem takesLongest_word : Rule.word.TakesLongest (wordKind? start) window := by
  refine takesLongest_of_covers (fun lexeme h => ?_) (fun front hfront hsome => ?_)
  · have htakes := takes_of_apply h
    refine ⟨.ofWord lexeme.text, by cases htakes; rfl, ?_⟩
    rw [wordKind?_eq, if_pos (isName_of_takes htakes)]
  · have hname : Token.isName front = true := by simpa [wordKind?_eq] using hsome
    obtain ⟨text, htext, hcovered⟩ := exists_word?_of_isName hfront hname
    exact ⟨⟨.token (.ofWord text), text⟩, by rw [apply, htext]; rfl, hcovered⟩

/-- The operator rule takes the longest operator. -/
theorem takesLongest_operator : Rule.operator.TakesLongest operatorKind? window := by
  refine takesLongest_of_covers (fun lexeme h => ?_) (fun front hfront hsome => ?_)
  · cases takes_of_apply h with
    | @operator symbol count hcount htext =>
      refine ⟨.operator symbol, rfl, ?_⟩
      rw [operatorKind?, Operator.ofText?_eq_some_iff.2 rfl]
      rfl
  · rw [operatorKind?, Option.isSome_map] at hsome
    obtain ⟨symbol, hsymbol⟩ := Option.isSome_iff_exists.1 hsome
    obtain ⟨found, hfound, hcovered⟩ := exists_operator?_of_ofText? hfront hsymbol
    exact ⟨⟨.token (.operator found.1), found.2⟩, by rw [apply, hfound]; rfl, hcovered⟩

/-- The delimiter rule takes the delimiter that there is. -/
theorem takesLongest_delimiter : Rule.delimiter.TakesLongest delimiterKind? window := by
  refine takesLongest_of_covers (fun lexeme h => ?_) (fun front hfront hsome => ?_)
  · cases takes_of_apply h with
    | @delimiter symbol htext =>
      refine ⟨.delimiter symbol, rfl, ?_⟩
      rw [delimiterKind?, Delimiter.ofText?_eq_some_iff.2 rfl]
      rfl
  · rw [delimiterKind?, Option.isSome_map] at hsome
    obtain ⟨symbol, hsymbol⟩ := Option.isSome_iff_exists.1 hsome
    obtain ⟨found, hfound, hcovered⟩ := exists_delimiter?_of_ofText? hfront hsymbol
    exact ⟨⟨.token (.delimiter found.1), found.2⟩, by rw [apply, hfound]; rfl, hcovered⟩

end Rule

/-- Numbers, names, operators and delimiters are read by the longest match: of all beginnings of a text that are
such a word as a whole, the rule takes the longest, and it takes nothing where there is none. -/
theorem rules_take_longest (start : Position) (window : List Char) :
    Rule.number.TakesLongest (numberKind? start) window ∧
      Rule.word.TakesLongest (wordKind? start) window ∧
      Rule.operator.TakesLongest operatorKind? window ∧
      Rule.delimiter.TakesLongest delimiterKind? window :=
  ⟨Rule.takesLongest_number start window, Rule.takesLongest_word start window,
    Rule.takesLongest_operator window, Rule.takesLongest_delimiter window⟩

example : (Rule.apply "1.2.3".toList .number).map Lexeme.text = some "1.2".toList ∧
    (Rule.apply "1.x".toList .number).map Lexeme.text = some "1".toList ∧
    Rule.apply "!é".toList .operator = none := by decide

end Offside
