import Mathlib.Tactic.ByContra
import Offside.Proofs.Lexeme.Takes

/-!
# The extent of comments

A comment behind a number sign is the longest beginning of the text without a line end. A block is the shortest
beginning that ends with three quotes again, where the three that open it do not count: four or five quotes in a row
close nothing, and six do. Without such a beginning the block is the whole text.

Both are said of all the beginnings of a text at once, without a look at how it is gone over. These are ordered, so
that a least one with a property stays the least when other text stands behind it. A closed block therefore does not
depend on what follows it.
-/

namespace Offside

namespace Text

/-- A beginning of a text that has a property, and that all others with this property go on from. -/
structure IsLeastFront (p : List Char → Prop) (text front : List Char) : Prop where
  isPrefix : front <+: text
  holds : p front
  least : ∀ other, other <+: text → p other → front <+: other

/-- A beginning of a text that has a property, and that goes on from all others with this property. -/
structure IsGreatestFront (p : List Char → Prop) (text front : List Char) : Prop where
  isPrefix : front <+: text
  holds : p front
  greatest : ∀ other, other <+: text → p other → other <+: front

variable {p : List Char → Prop} {text a b : List Char}

/-- Two texts that begin with each other are the same. -/
theorem eq_of_isPrefix (h : a <+: b) (h' : b <+: a) : a = b :=
  h.eq_of_length_le h'.length_le

/-- There is no more than one least beginning. -/
theorem IsLeastFront.eq (ha : IsLeastFront p text a) (hb : IsLeastFront p text b) : a = b :=
  eq_of_isPrefix (ha.least b hb.isPrefix hb.holds) (hb.least a ha.isPrefix ha.holds)

/-- There is no more than one greatest beginning. -/
theorem IsGreatestFront.eq (ha : IsGreatestFront p text a) (hb : IsGreatestFront p text b) : a = b :=
  eq_of_isPrefix (hb.greatest a ha.isPrefix ha.holds) (ha.greatest b hb.isPrefix hb.holds)

/-- A least beginning stays the least with other text behind it. -/
theorem IsLeastFront.append (h : IsLeastFront p text a) (rest : List Char) : IsLeastFront p (a ++ rest) a where
  isPrefix := List.prefix_append a rest
  holds := h.holds
  least := by
    intro other hother hp
    rcases List.prefix_or_prefix_of_prefix hother (List.prefix_append a rest) with hshort | hlong
    · exact h.least other (hshort.trans h.isPrefix) hp
    · exact hlong

/-- The run at the front of a text is the longest beginning of such characters. -/
theorem isGreatestFront_takeWhile (q : Char → Bool) (text : List Char) :
    IsGreatestFront (fun front => ∀ c ∈ front, q c = true) text (text.takeWhile q) where
  isPrefix := List.takeWhile_prefix q
  holds := fun _ hc => List.mem_takeWhile_imp hc
  greatest := fun _ hother hq => isPrefix_takeWhile hother hq

/-- A beginning of a text has no more bytes than the text. -/
theorem byteLength_le_of_isPrefix (h : a <+: b) : byteLength a ≤ byteLength b := by
  obtain ⟨rest, rfl⟩ := h
  rw [byteLength_append]
  omega

end Text

open Text

namespace Lexeme

variable {quote c : Char} {cs front text body window : List Char}

/-! ### Blocks -/

/-- Where no three quotes are in front, a beginning with them at its end has them behind its first character. -/
theorem replicate_suffix_cons_iff (hopen : ¬ List.replicate 3 quote <+: c :: cs) (hfront : front <+: cs) :
    List.replicate 3 quote <:+ c :: front ↔ List.replicate 3 quote <:+ front := by
  rw [List.suffix_cons_iff, or_iff_right]
  intro hwhole
  rw [hwhole] at hopen
  exact hopen (List.cons_prefix_cons.2 ⟨rfl, hfront⟩)

/-- Behind the opening quotes, a block goes up to the first beginning that ends with three quotes, or to the end
where there is none. -/
theorem isLeastFront_closeBlock (quote : Char) (text : List Char) :
    IsLeastFront (List.replicate 3 quote <:+ ·) text (closeBlock quote text) ∨
      closeBlock quote text = text ∧ ∀ front, front <+: text → ¬ List.replicate 3 quote <:+ front := by
  fun_induction closeBlock quote text with
  | case1 =>
    refine .inr ⟨rfl, fun front hfront hquotes => ?_⟩
    rw [List.prefix_nil.1 hfront] at hquotes
    cases List.suffix_nil.1 hquotes
  | case2 c cs hclosed =>
    refine .inl ⟨hclosed, List.suffix_refl _, fun other hother hquotes => ?_⟩
    exact List.prefix_of_prefix_length_le hclosed hother hquotes.length_le
  | case3 c cs hopen ih =>
    -- a beginning that ends with the quotes is not empty, so it opens with the character in front
    have hcons : ∀ other, other <+: c :: cs → List.replicate 3 quote <:+ other →
        ∃ front, other = c :: front ∧ front <+: cs ∧ List.replicate 3 quote <:+ front := by
      intro other hother hquotes
      rcases List.prefix_cons_iff.1 hother with rfl | ⟨front, rfl, hfront⟩
      · cases List.suffix_nil.1 hquotes
      · exact ⟨front, rfl, hfront, (replicate_suffix_cons_iff hopen hfront).1 hquotes⟩
    rcases ih with hleast | ⟨hwhole, hnone⟩
    · refine .inl ⟨List.cons_prefix_cons.2 ⟨rfl, hleast.isPrefix⟩, ?_, fun other hother hquotes => ?_⟩
      · exact (replicate_suffix_cons_iff hopen hleast.isPrefix).2 hleast.holds
      · obtain ⟨front, rfl, hfront, hclosed⟩ := hcons other hother hquotes
        exact List.cons_prefix_cons.2 ⟨rfl, hleast.least front hfront hclosed⟩
    · refine .inr ⟨by rw [hwhole], fun other hother hquotes => ?_⟩
      obtain ⟨front, -, hfront, hclosed⟩ := hcons other hother hquotes
      exact hnone front hfront hclosed

/-- A block goes up to the first beginning that ends with three quotes, if there is one. -/
theorem closeBlock_eq_of_isLeastFront (h : IsLeastFront (List.replicate 3 quote <:+ ·) text front) :
    closeBlock quote text = front := by
  rcases isLeastFront_closeBlock quote text with hleast | ⟨-, hnone⟩
  · exact hleast.eq h
  · exact absurd h.holds (hnone front h.isPrefix)

/-- A block that does not run to the end of the text is closed, whatever stands behind it. -/
theorem closeBlock_append (h : closeBlock quote text ≠ text) (rest : List Char) :
    closeBlock quote (closeBlock quote text ++ rest) = closeBlock quote text := by
  rcases isLeastFront_closeBlock quote text with hleast | ⟨hwhole, -⟩
  · exact closeBlock_eq_of_isLeastFront (hleast.append rest)
  · exact absurd hwhole h

/-- A text, itself open with three quotes, that ends with three others. -/
structure ClosesBlock (quote : Char) (text : List Char) : Prop where
  /-- There is room for three quotes at either end. -/
  apart : 6 ≤ byteLength text
  closes : List.replicate 3 quote <:+ text

/-- Three quotes are three bytes. -/
theorem byteLength_replicate_three (hquote : isQuote quote = true) :
    byteLength (List.replicate 3 quote) = 3 := by
  have hsize := utf8Size_of_isQuote hquote
  simp [List.replicate, hsize]

/-- A block is closed where three quotes stand behind those that open it. -/
theorem closesBlock_append_iff (hquote : isQuote quote = true) :
    ClosesBlock quote (List.replicate 3 quote ++ body) ↔ List.replicate 3 quote <:+ body := by
  have hthree := byteLength_replicate_three hquote
  constructor
  · rintro ⟨hapart, hcloses⟩
    rcases List.suffix_or_suffix_of_suffix hcloses (List.suffix_append _ body) with hlong | hshort
    · exact hlong
    · -- fewer than three characters behind the opening quotes are quotes themselves, and too few
      obtain ⟨more, hmore⟩ := hshort
      have hbody : byteLength more + byteLength body = 3 := by rw [← byteLength_append, hmore, hthree]
      rw [byteLength_append, hthree] at hapart
      have hnil : more = [] := by
        by_contra hne
        have hpos := byteLength_pos hne
        omega
      rw [← hmore, hnil]
      exact List.suffix_refl _
  · intro hcloses
    refine ⟨?_, List.suffix_append_of_suffix hcloses⟩
    obtain ⟨inner, rfl⟩ := hcloses
    rw [byteLength_append, byteLength_append, hthree]
    omega

/-- A beginning that closes a block has the opening quotes in front. -/
theorem exists_of_closesBlock (hquote : isQuote quote = true)
    (hfront : front <+: List.replicate 3 quote ++ cs) (h : ClosesBlock quote front) :
    ∃ body, front = List.replicate 3 quote ++ body ∧ body <+: cs ∧ List.replicate 3 quote <:+ body := by
  rcases List.prefix_or_prefix_of_prefix hfront (List.prefix_append _ cs) with hshort | ⟨body, rfl⟩
  · have hbytes := byteLength_le_of_isPrefix hshort
    rw [byteLength_replicate_three hquote] at hbytes
    have hapart := h.apart
    omega
  · exact ⟨body, rfl, (List.prefix_append_right_inj _).1 hfront, (closesBlock_append_iff hquote).1 h⟩

/-- A block is the shortest beginning that closes it, or the whole text where none does. -/
theorem isLeastFront_block (hquote : isQuote quote = true) (cs : List Char) :
    IsLeastFront (ClosesBlock quote) (List.replicate 3 quote ++ cs) (List.replicate 3 quote ++ closeBlock quote cs) ∨
      closeBlock quote cs = cs ∧
        ∀ front, front <+: List.replicate 3 quote ++ cs → ¬ ClosesBlock quote front := by
  rcases isLeastFront_closeBlock quote cs with hleast | ⟨hwhole, hnone⟩
  · refine .inl ⟨(List.prefix_append_right_inj _).2 hleast.isPrefix, (closesBlock_append_iff hquote).2 hleast.holds,
      fun other hother hcloses => ?_⟩
    obtain ⟨body, rfl, hbody, hquotes⟩ := exists_of_closesBlock hquote hother hcloses
    exact (List.prefix_append_right_inj _).2 (hleast.least body hbody hquotes)
  · refine .inr ⟨hwhole, fun front hfront hcloses => ?_⟩
    obtain ⟨body, -, hbody, hquotes⟩ := exists_of_closesBlock hquote hfront hcloses
    exact hnone body hbody hquotes

/-! ### Comments at the front of a text -/

/-- Three quotes open a block. -/
theorem comment?_of_block (hquote : isQuote quote = true) (cs : List Char) :
    comment? (quote :: quote :: quote :: cs) = some (quote :: quote :: quote :: closeBlock quote cs) := by
  rw [comment?.eq_def]
  split
  case h_1 heq =>
    rw [(List.cons.inj heq).1] at hquote
    exact absurd hquote (by decide)
  case h_2 heq =>
    cases heq
    simp [hquote]
  case h_3 hshort => exact absurd rfl (hshort quote quote quote cs)

/-- Behind a number sign, a comment is the longest beginning without a line end. -/
theorem comment?_eq_remark_iff (hsign : window.head? = some '#') :
    comment? window = some text ↔
      IsGreatestFront (fun front => ∀ c ∈ front, isLineEnd c = false) window text := by
  obtain ⟨cs, rfl⟩ := List.head?_eq_some_iff.1 hsign
  have hrun := isGreatestFront_takeWhile (fun c => !isLineEnd c) ('#' :: cs)
  simp only [Bool.not_eq_true'] at hrun
  constructor
  · intro h
    obtain rfl := Option.some.inj h
    exact hrun
  · intro h
    rw [h.eq hrun]
    rfl

/-- Behind three quotes, a comment is the shortest beginning that closes the block, or the whole text. -/
theorem comment?_eq_block_iff (hquote : isQuote quote = true) (hopen : List.replicate 3 quote <+: window) :
    comment? window = some text ↔
      IsLeastFront (ClosesBlock quote) window text ∨
        text = window ∧ ∀ front, front <+: window → ¬ ClosesBlock quote front := by
  obtain ⟨cs, rfl⟩ := hopen
  have hblock : comment? (List.replicate 3 quote ++ cs) = some (List.replicate 3 quote ++ closeBlock quote cs) :=
    comment?_of_block hquote cs
  rw [hblock, Option.some.injEq]
  rcases isLeastFront_block hquote cs with hleast | ⟨hwhole, hnone⟩
  · constructor
    · rintro rfl
      exact .inl hleast
    · rintro (h | ⟨-, hnone⟩)
      · exact hleast.eq h
      · exact absurd hleast.holds (hnone _ hleast.isPrefix)
  · rw [hwhole]
    constructor
    · rintro rfl
      exact .inr ⟨rfl, hnone⟩
    · rintro (h | ⟨rfl, -⟩)
      · exact absurd h.holds (hnone _ h.isPrefix)
      · rfl

/-- A closed block is read in front of every text. -/
theorem comment?_append_of_closesBlock (hquote : isQuote quote = true) (hopen : List.replicate 3 quote <+: window)
    (h : comment? window = some text) (hcloses : ClosesBlock quote text) (rest : List Char) :
    comment? (text ++ rest) = some text := by
  have hleast : IsLeastFront (ClosesBlock quote) window text := by
    rcases (comment?_eq_block_iff hquote hopen).1 h with hleast | ⟨rfl, hnone⟩
    · exact hleast
    · exact absurd hcloses (hnone _ (List.prefix_refl _))
  obtain ⟨cs, rfl⟩ := hopen
  obtain ⟨body, rfl, -, -⟩ := exists_of_closesBlock hquote hleast.isPrefix hcloses
  have hopen' : List.replicate 3 quote <+: List.replicate 3 quote ++ body ++ rest := by
    rw [List.append_assoc]
    exact List.prefix_append _ _
  exact (comment?_eq_block_iff hquote hopen').2 (.inl (hleast.append rest))

/-- Only a number sign or three quotes open a comment. -/
theorem comment?_eq_none_iff_not_opened :
    comment? window = none ↔
      window.head? ≠ some '#' ∧ ∀ quote, isQuote quote = true → ¬ List.replicate 3 quote <+: window := by
  constructor
  · intro hnone
    refine ⟨fun hsign => ?_, fun quote hquote hopen => ?_⟩
    · obtain ⟨cs, rfl⟩ := List.head?_eq_some_iff.1 hsign
      cases hnone
    · obtain ⟨cs, rfl⟩ := hopen
      have hblock := comment?_of_block hquote cs
      exact absurd (hnone.symm.trans hblock) (by simp)
  · rintro ⟨hsign, hopen⟩
    by_contra hsome
    obtain ⟨text, htext⟩ := Option.ne_none_iff_exists'.1 hsome
    cases Rule.takes_of_comment? htext with
    | remark hwindow => exact hsign (by rw [hwindow]; rfl)
    | @block quote cs hwindow hquote => exact hopen quote hquote ⟨cs, hwindow.symm⟩

/-- Comments have exactly their extent: behind a number sign the longest beginning of the text without a line end,
behind three quotes the shortest beginning that ends with three others, or the whole text where there is none. No
other text opens with a comment, and a closed block does not depend on what stands behind it. -/
theorem comment?_has_extent (window : List Char) :
    (window.head? = some '#' → ∀ text, comment? window = some text ↔
      IsGreatestFront (fun front => ∀ c ∈ front, isLineEnd c = false) window text) ∧
    (∀ quote, isQuote quote = true → List.replicate 3 quote <+: window →
      (∀ text, comment? window = some text ↔
        IsLeastFront (ClosesBlock quote) window text ∨
          text = window ∧ ∀ front, front <+: window → ¬ ClosesBlock quote front) ∧
      ∀ text, comment? window = some text → ClosesBlock quote text → ∀ rest,
        comment? (text ++ rest) = some text) ∧
    (comment? window = none ↔
      window.head? ≠ some '#' ∧ ∀ quote, isQuote quote = true → ¬ List.replicate 3 quote <+: window) := by
  refine ⟨fun hsign text => comment?_eq_remark_iff hsign, fun quote hquote hopen => ⟨fun text => ?_, ?_⟩,
    comment?_eq_none_iff_not_opened⟩
  · exact comment?_eq_block_iff hquote hopen
  · intro text h hcloses rest
    exact comment?_append_of_closesBlock hquote hopen h hcloses rest

example : comment? "''''é\n\"\"\"''''".toList = some "''''é\n\"\"\"'''".toList ∧
    comment? "'''''".toList = some "'''''".toList ∧ comment? "'''''''".toList = some "''''''".toList := by decide

end Lexeme

end Offside
