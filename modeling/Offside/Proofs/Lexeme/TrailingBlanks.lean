import Offside.Proofs.Lexeme.Cut

/-!
# Lexemes in front of blanks

Most lexemes end with another character than a blank. Where a text has blanks behind it, such a lexeme is a piece of
the text alone, so none is found only with the blanks there, and none goes on into them.

What goes on into them is a run of blanks, a comment on the last line, or a block that nothing closes. It then takes
in all of the blanks, and without them it takes all that is left of the text.
-/

namespace Offside

open Text Lexeme

variable {window blanks text : List Char} {lexeme : Lexeme} {quote : Char}

/-- A piece of a text with blanks behind it is a piece of the text alone, unless it ends with a blank. -/
theorem isPrefix_of_append_blanks {piece : List Char} (hblank : ∀ c ∈ blanks, isBlank c = true)
    (h : piece <+: window ++ blanks) (hlast : ∀ c, piece.getLast? = some c → isBlank c = false) :
    piece <+: window := by
  refine (List.prefix_or_prefix_of_prefix h (List.prefix_append window blanks)).elim id ?_
  rintro ⟨more, rfl⟩
  rcases List.eq_nil_or_concat more with rfl | ⟨front, c, rfl⟩
  · simp
  · have hmore := (List.prefix_append_right_inj window).1 h
    have hc := hblank c (hmore.subset (by simp))
    rw [hlast c (by simp [← List.append_assoc])] at hc
    cases hc

/-- Only blanks and comments end with a blank. -/
theorem Rule.isBlank_getLast?_eq_false {rule : Rule} (h : rule.apply window = some lexeme)
    (hrule : rule ∉ [Rule.blank, Rule.comment]) : ∀ c, lexeme.text.getLast? = some c → isBlank c = false := by
  intro c hlast
  have hmem := List.mem_of_getLast? hlast
  by_contra hblank
  rw [Bool.not_eq_false] at hblank
  have hc : Separates [c] := fun d hd => .inl (Option.some.inj hd ▸ hblank)
  have hnone : ∀ p : Char → Bool, (separators.all fun d => !p d) = true → ¬ p c = true :=
    fun p hp => (Bool.not_eq_true _).mpr (hc.eq_false hp c rfl)
  cases takes_of_apply h with
  | blanks | remark | block => exact hrule (by decide)
  | pair =>
    cases hlast
    cases hblank
  | @single d cs hwindow hend =>
    obtain rfl : d = c := Option.some.inj hlast
    rw [isLineEnd_of_isBlank hblank] at hend
    cases hend
  | @literal quote cs body hwindow hquote hclosed =>
    rw [List.getLast?_cons, getLast?_of_closeString? hclosed] at hlast
    obtain rfl : quote = c := Option.some.inj hlast
    rw [isBlank_of_isQuote hquote] at hblank
    cases hblank
  | @unclosed quote cs hwindow hquote =>
    obtain rfl : quote = c := Option.some.inj hlast
    rw [isBlank_of_isQuote hquote] at hblank
    cases hblank
  | digits htext => exact hnone Char.isDigit (by decide) (forall_of_eq_takeWhile htext c hmem)
  | @fraction whole digits cs hwhole hne hpoint hdigits hne' =>
    rw [List.getLast?_append_of_ne_nil _ (by simp), List.getLast?_cons_of_ne_nil hne'] at hlast
    have hdigit := forall_of_eq_takeWhile hdigits c (List.mem_of_getLast? hlast)
    exact hnone Char.isDigit (by decide) hdigit
  | name hwindow hstart =>
    rcases List.mem_cons.1 hmem with rfl | hmem
    · exact hnone isNameStart (by decide) hstart
    · exact hnone isNameChar (by decide) (List.mem_takeWhile_imp hmem)
  | @operator symbol =>
    have hnone' := Operator.ofText?_eq_none_of_mem hc.mem_separators hmem
    rw [Operator.ofText?_eq_some_iff.2 rfl] at hnone'
    cases hnone'
  | @delimiter symbol =>
    have hspelling : (symbol.spelling.toList.all fun d => !isBlank d) = true := by cases symbol <;> decide
    have hother := List.all_eq_true.1 hspelling c hmem
    rw [hblank] at hother
    cases hother

/-- A run ends in a text, or it takes in all of the text and all of its characters behind it. -/
theorem takeWhile_append_cases {p : Char → Bool} (hp : ∀ c ∈ blanks, p c = true) (text : List Char) :
    (text ++ blanks).takeWhile p <+: text ∨
      (text ++ blanks).takeWhile p = text ++ blanks ∧ text.takeWhile p = text := by
  rw [List.takeWhile_append]
  split
  case isTrue hlength =>
    have hall := (List.takeWhile_prefix p).eq_of_length hlength
    exact .inr ⟨by rw [List.takeWhile_eq_self_iff.2 hp], hall⟩
  case isFalse => exact .inl (List.takeWhile_prefix p)

/-- A block ends in a text, or it takes in all of the text and all blanks behind it, and nothing closes it. -/
theorem closeBlock_append_cases (quote : Char) (text : List Char) (hblank : ∀ c ∈ blanks, isBlank c = true)
    (hquote : isQuote quote = true) :
    closeBlock quote (text ++ blanks) <+: text ∨
      closeBlock quote (text ++ blanks) = text ++ blanks ∧ closeBlock quote text = text := by
  by_cases hopen : closeBlock quote text = text
  · rcases closeBlock_eq_or_getLast? quote (text ++ blanks) with hwhole | hlast
    · exact .inr ⟨hwhole, hopen⟩
    · have hfront := closeBlock_prefix quote (text ++ blanks)
      refine .inl (isPrefix_of_append_blanks hblank hfront fun c hc => ?_)
      obtain rfl := Option.some.inj (hlast.symm.trans hc)
      exact isBlank_of_isQuote hquote
  · obtain ⟨rest, hrest⟩ := closeBlock_prefix quote text
    have hclosed := closeBlock_append hopen (rest ++ blanks)
    rw [← List.append_assoc, hrest] at hclosed
    exact .inl (hclosed ▸ ⟨rest, hrest⟩)

/-- A text of blanks is one run of them. -/
theorem classify_all_blanks (hne : blanks ≠ []) (hblank : ∀ c ∈ blanks, isBlank c = true) :
    classify blanks = some ⟨.blank, blanks⟩ := by
  have hread := @classify_blanks blanks [] hne hblank nofun
  rwa [List.append_nil] at hread

/-- How a lexeme stands to blanks behind a text. -/
inductive Meets (window blanks : List Char) (lexeme : Lexeme) : Prop where
  /-- It is a piece of the text alone. -/
  | fits (hfront : lexeme.text <+: window)
  /-- It is a run of blanks or a comment over the text and the blanks, and without the blanks one over the text. -/
  | covers (hwhole : lexeme.text = window ++ blanks) (hskipped : lexeme.reading = .blank ∨ lexeme.reading = .comment)
      (hown : classify window = some ⟨lexeme.reading, window⟩)

/-- A comment on the last line of a text goes on over all of the blanks behind it. -/
theorem meets_remark (hblank : ∀ c ∈ blanks, isBlank c = true) (text : List Char) :
    Meets ('#' :: text) blanks ⟨.comment, '#' :: (text ++ blanks).takeWhile fun c => !isLineEnd c⟩ := by
  have hrun : ∀ c ∈ blanks, (!isLineEnd c) = true := fun c hc => by simp [isLineEnd_of_isBlank (hblank c hc)]
  rcases takeWhile_append_cases hrun text with hfits | ⟨hwhole, hown⟩
  · exact .fits (List.cons_prefix_cons.2 ⟨rfl, hfits⟩)
  · have hline : ∀ c ∈ text, isLineEnd c = false := by simpa using List.takeWhile_eq_self_iff.1 hown
    have hread := @classify_comment text [] hline nofun
    rw [List.append_nil] at hread
    exact .covers (congrArg ('#' :: ·) hwhole) (.inr rfl) hread

/-- So does a block that nothing closes. -/
theorem meets_block (hblank : ∀ c ∈ blanks, isBlank c = true) (hquote : isQuote quote = true) (text : List Char) :
    Meets (quote :: quote :: quote :: text) blanks
      ⟨.comment, quote :: quote :: quote :: closeBlock quote (text ++ blanks)⟩ := by
  rcases closeBlock_append_cases quote text hblank hquote with hfits | ⟨hwhole, hown⟩
  · exact .fits ((List.prefix_append_right_inj [quote, quote, quote]).2 hfits)
  · refine .covers (congrArg ([quote, quote, quote] ++ ·) hwhole) (.inr rfl) (@classify_of_apply .comment _ _ ?_ nofun)
    rw [Rule.apply, comment?_of_block hquote, hown]
    rfl

/-- What is read in front of blanks is a piece of the text without them, or is as long with all of the blanks as it
is alone with all of the text. -/
theorem meets_of_classify (hblank : ∀ c ∈ blanks, isBlank c = true) (hne : window ≠ [])
    (h : classify (window ++ blanks) = some lexeme) : Meets window blanks lexeme := by
  obtain ⟨c, cs, rfl⟩ := List.exists_cons_of_ne_nil hne
  obtain ⟨-, hfront⟩ := isFront_of_classify h
  rcases classify_cases h with ⟨rule, happly, -⟩ | ⟨d, ds, hwindow, -, rfl⟩
  · by_cases hrule : rule ∈ [Rule.blank, Rule.comment]
    · cases Rule.takes_of_apply happly with
      | blanks htext hne' =>
        subst htext
        rcases takeWhile_append_cases hblank (c :: cs) with hfits | ⟨hwhole, hown⟩
        · exact .fits hfits
        · exact .covers hwhole (.inl rfl) (classify_all_blanks hne (List.takeWhile_eq_self_iff.1 hown))
      | remark hwindow =>
        obtain ⟨rfl, rfl⟩ := List.cons.inj hwindow
        exact meets_remark hblank cs
      | @block quote ds hwindow hquote =>
        have hopens : [quote, quote, quote] <+: c :: cs := by
          refine isPrefix_of_append_blanks hblank ⟨ds, hwindow.symm⟩ fun d hd => ?_
          obtain rfl := Option.some.inj hd
          exact isBlank_of_isQuote hquote
        obtain ⟨inner, hinner⟩ := hopens
        rw [← hinner] at hwindow ⊢
        obtain rfl : inner ++ blanks = ds := by simpa using hwindow
        exact meets_block hblank hquote inner
      | _ => exact absurd hrule (by decide)
    · exact .fits (isPrefix_of_append_blanks hblank hfront (Rule.isBlank_getLast?_eq_false happly hrule))
  · obtain ⟨rfl, -⟩ := List.cons.inj hwindow
    exact .fits ⟨cs, rfl⟩

end Offside
