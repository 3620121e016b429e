import Offside.Proofs.Lexeme.Thinning
import Offside.Proofs.Position

/-!
# Other line ends

A text whose lines end with line feeds can have other line ends instead: carriage returns, or pairs of both.
Every lexeme is then read as before, with its own line ends exchanged, but for one sort of literal.

A backslash takes one character along. It takes a line feed or a carriage return into a literal, but only the
first character of a pair. The line feed behind that one breaks the literal, so a literal that runs over a
line end is left open when pairs end the lines.
-/

namespace Offside

namespace Text

/-- What ends lines in place of a line feed. -/
inductive LineEnding where
  /-- A carriage return. -/
  | single
  /-- A carriage return and a line feed. -/
  | pair
deriving DecidableEq, Repr

/-- The characters of a line end. -/
def LineEnding.text : LineEnding → List Char
  | .single => ['\r']
  | .pair => ['\r', '\n']

/-- A text with another line end in place of each line feed. -/
def endLines (ending : LineEnding) (text : List Char) : List Char :=
  text.flatMap fun c => if c = '\n' then ending.text else [c]

/-- Whether a literal is still closed with other line ends. -/
def LineEnding.spares (ending : LineEnding) (text : List Char) : Bool :=
  ending == .single || !text.contains '\n'

variable {ending : LineEnding} {text : List Char}

@[simp] theorem endLines_nil : endLines ending [] = [] := rfl

@[simp] theorem endLines_append (a b : List Char) :
    endLines ending (a ++ b) = endLines ending a ++ endLines ending b :=
  List.flatMap_append

theorem endLines_cons_of_ne {c : Char} (h : c ≠ '\n') (cs : List Char) :
    endLines ending (c :: cs) = c :: endLines ending cs := by
  simp [endLines, h]

theorem endLines_lineFeed (cs : List Char) :
    endLines ending ('\n' :: cs) = ending.text ++ endLines ending cs := by
  simp [endLines]

/-- Every line end that takes the place of a line feed opens with a carriage return. -/
theorem exists_endLines_lineFeed (cs : List Char) :
    ∃ more, endLines ending ('\n' :: cs) = '\r' :: more := by
  cases ending <;> exact ⟨_, endLines_lineFeed cs⟩

/-- The first character stays, or it is a line feed and a carriage return comes in its place. -/
theorem endLines_cons_cases (ending : LineEnding) (c : Char) (cs : List Char) :
    (c = '\n' ∧ ∃ more, endLines ending (c :: cs) = '\r' :: more) ∨
      (c ≠ '\n' ∧ endLines ending (c :: cs) = c :: endLines ending cs) := by
  by_cases hc : c = '\n'
  · subst hc
    exact .inl ⟨rfl, exists_endLines_lineFeed cs⟩
  · exact .inr ⟨hc, endLines_cons_of_ne hc cs⟩

/-- A text without line feeds stays as it is. -/
theorem endLines_eq_self (h : '\n' ∉ text) : endLines ending text = text := by
  induction text with
  | nil => rfl
  | cons c cs ih =>
    obtain ⟨hc, hcs⟩ := List.ne_and_not_mem_of_not_mem_cons h
    rw [endLines_cons_of_ne (Ne.symm hc), ih hcs]

section Runs

variable {p : Char → Bool}

/-- A run of other characters is the same. -/
theorem takeWhile_endLines (hfeed : p '\n' = false) (hreturn : p '\r' = false) :
    (endLines ending text).takeWhile p = text.takeWhile p := by
  induction text with
  | nil => rfl
  | cons c cs ih =>
    rcases endLines_cons_cases ending c cs with ⟨rfl, more, hmore⟩ | ⟨-, hsame⟩
    · rw [hmore, List.takeWhile_cons_of_neg (by simp [hreturn]), List.takeWhile_cons_of_neg (by simp [hfeed])]
    · rw [hsame, List.takeWhile_cons, List.takeWhile_cons, ih]

/-- What is left behind a run of other characters has its line feeds exchanged. -/
theorem dropWhile_endLines (hfeed : p '\n' = false) (hreturn : p '\r' = false) :
    (endLines ending text).dropWhile p = endLines ending (text.dropWhile p) := by
  induction text with
  | nil => rfl
  | cons c cs ih =>
    rcases endLines_cons_cases ending c cs with ⟨rfl, more, hmore⟩ | ⟨-, hsame⟩
    · rw [List.dropWhile_cons_of_neg (by simp [hfeed]), hmore, List.dropWhile_cons_of_neg (by simp [hreturn])]
    · rw [hsame, List.dropWhile_cons, List.dropWhile_cons, ih]
      split
      · rfl
      · rw [hsame]

/-- A run without line feeds stays as it is. -/
theorem endLines_takeWhile (hfeed : p '\n' = false) :
    endLines ending (text.takeWhile p) = text.takeWhile p :=
  endLines_eq_self fun hmem => by simpa [hfeed] using List.mem_takeWhile_imp hmem

end Runs

/-- A front without line ends is a front still. -/
theorem isPrefix_endLines {front : List Char} (h : ∀ c ∈ front, isLineEnd c = false) :
    front <+: endLines ending text ↔ front <+: text := by
  induction front generalizing text with
  | nil => simp
  | cons d ds ih =>
    obtain ⟨hd, hds⟩ := List.forall_mem_cons.1 h
    cases text with
    | nil => rfl
    | cons c cs =>
      rcases endLines_cons_cases ending c cs with ⟨rfl, more, hmore⟩ | ⟨-, hsame⟩
      · rw [hmore, List.cons_prefix_cons, List.cons_prefix_cons]
        constructor
        · rintro ⟨rfl, -⟩
          cases hd
        · rintro ⟨rfl, -⟩
          cases hd
      · rw [hsame, List.cons_prefix_cons, List.cons_prefix_cons, ih hds]

/-- The first characters are the same, or a line end is among them before and after. -/
theorem take_endLines (count : Nat) (text : List Char) :
    (endLines ending text).take count = text.take count ∨
      '\n' ∈ text.take count ∧ '\r' ∈ (endLines ending text).take count := by
  induction text generalizing count with
  | nil => exact .inl rfl
  | cons c cs ih =>
    cases count with
    | zero => exact .inl rfl
    | succ count =>
      rcases endLines_cons_cases ending c cs with ⟨rfl, more, hmore⟩ | ⟨-, hsame⟩
      · rw [hmore]
        exact .inr ⟨List.mem_cons_self, List.mem_cons_self⟩
      · rw [hsame, List.take_succ_cons, List.take_succ_cons]
        refine (ih count).imp (congrArg (c :: ·)) fun hmem => ?_
        exact ⟨List.mem_cons_of_mem _ hmem.1, List.mem_cons_of_mem _ hmem.2⟩

end Text

open Text

/-- A text does not open with a line feed when its line feeds are exchanged. -/
theorem Text.head?_endLines {ending : LineEnding} (text : List Char) :
    (endLines ending text).head? ≠ some '\n' := by
  cases text with
  | nil => simp
  | cons c cs =>
    rcases endLines_cons_cases ending c cs with ⟨rfl, more, hmore⟩ | ⟨hc, hsame⟩
    · simp [hmore]
    · simp [hsame, hc]

namespace Position

variable {p q : Position} {text : List Char}

/-- Only behind a carriage return it matters which character comes next. -/
theorem advanceBefore_eq {c : Char} (h : c ≠ '\r') (p : Position) (a b : Option Char) :
    p.advanceBefore c a = p.advanceBefore c b := by
  rw [advanceBefore, advanceBefore, endsLine_of_not_pair fun hc => absurd hc h,
    endsLine_of_not_pair fun hc => absurd hc h]

/-- Carriage returns in place of line feeds change no position. -/
theorem advanceOver_endLines (h : '\r' ∉ text) (p : Position) :
    p.advanceOver (endLines .single text) = p.advanceOver text := by
  induction text generalizing p with
  | nil => rfl
  | cons c cs ih =>
    obtain ⟨hc, hcs⟩ := List.ne_and_not_mem_of_not_mem_cons h
    by_cases hfeed : c = '\n'
    · subst hfeed
      have hends : endsLine '\r' (endLines .single cs).head? = true := by
        rw [endsLine_of_not_pair fun _ => head?_endLines cs]
        rfl
      have hsame : p.advanceBefore '\r' (endLines .single cs).head? = p.advanceBefore '\n' cs.head? := by
        rw [advanceBefore, if_pos hends]
        rfl
      rw [endLines_lineFeed, LineEnding.text, List.singleton_append, advanceOver_cons, advanceOver_cons,
        hsame, ih hcs]
    · rw [endLines_cons_of_ne hfeed, advanceOver_cons, advanceOver_cons, ih hcs,
        advanceBefore_eq (Ne.symm hc) p _ cs.head?]

/-- Pairs in place of line feeds change no line and no column. -/
theorem Beside.endLines (h : p.Beside q) (htext : '\r' ∉ text) :
    (p.advanceOver text).Beside (q.advanceOver (endLines .pair text)) := by
  induction text generalizing p q with
  | nil => exact h
  | cons c cs ih =>
    obtain ⟨hc, hcs⟩ := List.ne_and_not_mem_of_not_mem_cons htext
    by_cases hfeed : c = '\n'
    · subst hfeed
      rw [endLines_lineFeed]
      exact ih ⟨congrArg (· + 1) h.line, rfl⟩ hcs
    · rw [endLines_cons_of_ne hfeed, advanceOver_cons, advanceOver_cons,
        advanceBefore_eq (Ne.symm hc) q _ cs.head?]
      exact ih (h.advanceBefore c _) hcs

end Position

namespace Lexeme

variable {ending : LineEnding} {window text : List Char} {quote : Char}

/-! ### Rules for pieces of one line -/

theorem blank?_endLines : blank? (endLines ending window) = blank? window := by
  rw [blank?, takeWhile_endLines rfl rfl, blank?]

theorem number?_endLines : number? (endLines ending window) = number? window := by
  rw [number?, number?, takeWhile_endLines rfl rfl, dropWhile_endLines rfl rfl]
  congr 1
  funext whole
  cases window.dropWhile Char.isDigit with
  | nil => rfl
  | cons c cs =>
    rcases endLines_cons_cases ending c cs with ⟨rfl, more, hmore⟩ | ⟨-, hsame⟩
    · rw [hmore]
      rfl
    · rw [hsame]
      by_cases hpoint : c = '.'
      · subst hpoint
        simp only [takeWhile_endLines (p := Char.isDigit) rfl rfl]
      · split <;> simp_all

theorem word?_endLines : word? (endLines ending window) = word? window := by
  cases window with
  | nil => rfl
  | cons c cs =>
    rcases endLines_cons_cases ending c cs with ⟨rfl, more, hmore⟩ | ⟨-, hsame⟩
    · rw [hmore]
      rfl
    · rw [hsame, word?, word?, takeWhile_endLines rfl rfl]

theorem operator?_endLines : operator? (endLines ending window) = operator? window := by
  have hfront : ∀ count, (Operator.ofText? ((endLines ending window).take count)).map
      (·, (endLines ending window).take count) =
        (Operator.ofText? (window.take count)).map (·, window.take count) := by
    intro count
    rcases @take_endLines ending count window with hsame | ⟨hfeed, hreturn⟩
    · rw [hsame]
    · rw [Operator.ofText?_eq_none_of_mem (by decide) hfeed,
        Operator.ofText?_eq_none_of_mem (by decide) hreturn]
      rfl
  rw [operator?_eq, operator?_eq, hfront, hfront]

theorem delimiter?_endLines : delimiter? (endLines ending window) = delimiter? window := by
  cases window with
  | nil => rfl
  | cons c cs =>
    rcases endLines_cons_cases ending c cs with ⟨rfl, more, hmore⟩ | ⟨-, hsame⟩
    · rw [hmore]
      rfl
    · rw [hsame]
      rfl

/-! ### Rules for pieces of several lines -/

/-- A character that ends no line is no line end. -/
theorem lineEnd?_eq_none {c : Char} (h : isLineEnd c = false) (cs : List Char) :
    lineEnd? (c :: cs) = none := by
  unfold lineEnd?
  split
  case h_1 heq =>
    rw [(List.cons.inj heq).1] at h
    cases h
  case h_2 heq =>
    rw [(List.cons.inj heq).1] at h
    rw [h]
    rfl
  case h_3 heq => cases heq

/-- A line end is exchanged as a whole. -/
theorem lineEnd?_endLines (h : '\r' ∉ window) :
    lineEnd? (endLines ending window) = (lineEnd? window).map (endLines ending) := by
  cases window with
  | nil => rfl
  | cons c cs =>
    by_cases hfeed : c = '\n'
    · subst hfeed
      rw [endLines_lineFeed]
      cases ending with
      | single => exact lineEnd?_of_single rfl fun hcut => head?_endLines cs hcut.2
      | pair => rfl
    · have hend : isLineEnd c = false := by
        have hreturn := List.ne_of_not_mem_cons h
        simp [isLineEnd, hfeed, Ne.symm hreturn]
      rw [endLines_cons_of_ne hfeed, lineEnd?_eq_none hend, lineEnd?_eq_none hend]
      rfl

/-- Only three quotes end a block. -/
theorem closeBlock_cons_of_ne {c : Char} (h : c ≠ quote) (cs : List Char) :
    closeBlock quote (c :: cs) = c :: closeBlock quote cs := by
  rw [closeBlock, if_neg]
  intro hthree
  exact h (List.cons_prefix_cons.1 hthree).1.symm

/-- A block ends where it did. -/
theorem closeBlock_endLines (hquote : isQuote quote = true) (text : List Char) :
    closeBlock quote (endLines ending text) = endLines ending (closeBlock quote text) := by
  have hplain := isLineEnd_of_isQuote hquote
  have hother : ∀ c, isLineEnd c = true → c ≠ quote := by
    rintro c hc rfl
    rw [hplain] at hc
    cases hc
  have hquotes : ∀ c ∈ List.replicate 3 quote, isLineEnd c = false := fun c hc => by
    rw [List.eq_of_mem_replicate hc, hplain]
  induction text with
  | nil => rfl
  | cons c cs ih =>
    by_cases hfeed : c = '\n'
    · subst hfeed
      rw [closeBlock_cons_of_ne (hother _ rfl), endLines_lineFeed, endLines_lineFeed, ← ih]
      cases ending with
      | single => exact closeBlock_cons_of_ne (hother _ rfl) _
      | pair =>
        change closeBlock quote ('\r' :: '\n' :: endLines .pair cs) = _
        rw [closeBlock_cons_of_ne (hother _ rfl), closeBlock_cons_of_ne (hother _ rfl)]
        rfl
    · have hsame := @isPrefix_endLines ending (c :: cs) _ hquotes
      rw [endLines_cons_of_ne hfeed] at hsame ⊢
      rw [closeBlock, closeBlock]
      by_cases hclosed : List.replicate 3 quote <+: c :: cs
      · rw [if_pos hclosed, if_pos (hsame.2 hclosed), endLines_eq_self]
        intro hmem
        cases hquotes _ hmem
      · rw [if_neg hclosed, if_neg (mt hsame.1 hclosed), ih, endLines_cons_of_ne hfeed]

/-- Comments open with a number sign or a quote. -/
theorem comment?_eq_none {c : Char} (hsign : c ≠ '#') (hquote : isQuote c = false) (cs : List Char) :
    comment? (c :: cs) = none := by
  by_contra hsome
  obtain ⟨text, htext⟩ := Option.ne_none_iff_exists'.1 hsome
  have happly : Rule.apply (c :: cs) .comment = some ⟨.comment, text⟩ := by
    rw [Rule.apply, htext]
    rfl
  have hopens := Rule.opensWith_of_apply happly
  simp [Rule.opensWith, hsign, hquote] at hopens

/-- A comment goes as far as it did. -/
theorem comment?_endLines : comment? (endLines ending window) = (comment? window).map (endLines ending) := by
  cases window with
  | nil => rfl
  | cons c cs =>
    rcases endLines_cons_cases ending c cs with ⟨rfl, more, hmore⟩ | ⟨hfeed, hsame⟩
    · rw [hmore, comment?_eq_none (by decide) rfl, comment?_eq_none (by decide) rfl]
      rfl
    rw [hsame]
    by_cases hsign : c = '#'
    · subst hsign
      have hrun := @takeWhile_endLines ending cs (fun c => !isLineEnd c) rfl rfl
      have hline := @endLines_takeWhile ending cs (fun c => !isLineEnd c) rfl
      rw [comment?, comment?, hrun, Option.map_some, endLines_cons_of_ne hfeed, hline]
    by_cases hquote : isQuote c = true
    · have hpair : ∀ d ∈ [c, c], isLineEnd d = false := by simp [isLineEnd_of_isQuote hquote]
      by_cases hblock : [c, c] <+: cs
      · obtain ⟨ds, rfl⟩ := hblock
        change comment? (c :: endLines ending (c :: c :: ds)) = (comment? (c :: c :: c :: ds)).map _
        rw [endLines_cons_of_ne hfeed, endLines_cons_of_ne hfeed, comment?_of_block hquote,
          comment?_of_block hquote, closeBlock_endLines hquote, Option.map_some, endLines_cons_of_ne hfeed,
          endLines_cons_of_ne hfeed, endLines_cons_of_ne hfeed]
      · rw [(comment?_eq_none_iff hquote _).2 hblock,
          (comment?_eq_none_iff hquote _).2 (mt (isPrefix_endLines hpair).1 hblock)]
        rfl
    · rw [Bool.not_eq_true] at hquote
      rw [comment?_eq_none hsign hquote, comment?_eq_none hsign hquote]
      rfl

/-- A line end breaks a literal. -/
theorem closeString?_eq_none {c : Char} (h : isLineEnd c = true) (hquote : isQuote quote = true)
    (cs : List Char) : closeString? quote (c :: cs) = none := by
  have hne : c ≠ quote := by
    rintro rfl
    rw [isLineEnd_of_isQuote hquote] at h
    cases h
  have hescape : c ≠ '\\' := by
    rintro rfl
    cases h
  rw [closeString?_cons_of_ne hescape, if_neg (by simpa using hne), if_pos h]

/-- Whether a literal is still closed does not depend on a part of it without line feeds. -/
theorem spares_append {front : List Char} (h : '\n' ∉ front) (text : List Char) :
    ending.spares (front ++ text) = ending.spares text := by
  simp [LineEnding.spares, List.contains_eq_mem, h]

/-- A part without line feeds can be put in front of a literal later. -/
theorem map_filter_spares {front : List Char} (h : '\n' ∉ front) (found : Option (List Char)) :
    ((found.map (front ++ ·)).filter ending.spares).map (endLines ending) =
      ((found.filter ending.spares).map (endLines ending)).map (front ++ ·) := by
  cases found with
  | none => rfl
  | some text =>
    rw [Option.map_some, Option.filter_some, Option.filter_some, spares_append h]
    split
    · rw [Option.map_some, Option.map_some, Option.map_some, endLines_append, endLines_eq_self h]
    · rfl

/-- An escape takes a line feed or a carriage return along, and leaves the second character of a pair. -/
theorem closeString?_escaped_lineFeed (hquote : isQuote quote = true) (cs : List Char)
    (ih : closeString? quote (endLines ending cs) =
      ((closeString? quote cs).filter ending.spares).map (endLines ending)) :
    closeString? quote (endLines ending ('\\' :: '\n' :: cs)) =
      (((closeString? quote cs).map ('\\' :: '\n' :: ·)).filter ending.spares).map (endLines ending) := by
  rw [endLines_cons_of_ne (by decide), endLines_lineFeed]
  cases ending with
  | single =>
    change (closeString? quote (endLines .single cs)).map ('\\' :: '\r' :: ·) = _
    rw [ih]
    cases closeString? quote cs <;> rfl
  | pair =>
    change (closeString? quote ('\n' :: endLines .pair cs)).map ('\\' :: '\r' :: ·) = _
    rw [closeString?_eq_none rfl hquote]
    cases closeString? quote cs <;> rfl

/-- A literal is closed where it was, unless it runs over a line end that is a pair now. -/
theorem closeString?_endLines (hquote : isQuote quote = true) (h : '\r' ∉ text) :
    closeString? quote (endLines ending text) =
      ((closeString? quote text).filter ending.spares).map (endLines ending) := by
  fun_induction closeString? quote text with
  | case1 => rfl
  | case2 c cs ih =>
    have hcs := ih fun hmem => h (List.mem_cons_of_mem _ (List.mem_cons_of_mem _ hmem))
    by_cases hfeed : c = '\n'
    · subst hfeed
      exact closeString?_escaped_lineFeed hquote cs hcs
    · have hfront : '\n' ∉ ['\\', c] := by simp [Ne.symm hfeed]
      rw [endLines_cons_of_ne (by decide), endLines_cons_of_ne hfeed, closeString?, hcs]
      exact (map_filter_spares hfront _).symm
  | case3 c cs hescape hclosed =>
    obtain rfl : c = quote := by simpa using hclosed
    have hfeed : c ≠ '\n' := by
      rintro rfl
      cases hquote
    have hslash : c ≠ '\\' := by
      rintro rfl
      cases hquote
    have hspares : ending.spares [c] = true := by simp [LineEnding.spares, Ne.symm hfeed]
    rw [endLines_cons_of_ne hfeed, closeString?_cons_of_ne hslash, if_pos hclosed, Option.filter_some,
      if_pos hspares, Option.map_some, endLines_cons_of_ne hfeed, endLines_nil]
  | case4 c cs hescape hopen hend =>
    obtain rfl : c = '\n' := by
      have hreturn := List.ne_of_not_mem_cons h
      simpa [isLineEnd, Ne.symm hreturn] using hend
    obtain ⟨more, hmore⟩ := @exists_endLines_lineFeed ending cs
    rw [hmore]
    exact closeString?_eq_none rfl hquote more
  | case5 c cs hescape hopen hend ih =>
    have hcs := ih fun hmem => h (List.mem_cons_of_mem _ hmem)
    have hfeed : c ≠ '\n' := by
      rintro rfl
      exact hend rfl
    have hfront : '\n' ∉ [c] := by simpa using Ne.symm hfeed
    by_cases hslash : c = '\\'
    · -- a backslash that nothing follows
      subst hslash
      obtain rfl : cs = [] := List.eq_nil_iff_forall_not_mem.2 fun d hd => by
        obtain ⟨e, es, rfl⟩ := List.exists_cons_of_ne_nil (List.ne_nil_of_mem hd)
        exact hescape e es rfl rfl
      rw [Bool.not_eq_true] at hopen
      simp [endLines, closeString?, hopen]
    · rw [endLines_cons_of_ne hfeed, closeString?_cons_of_ne hslash, if_neg hopen, if_neg hend, hcs]
      exact (map_filter_spares hfront _).symm

/-! ### All rules -/

/-- What a lexeme is read as when line ends are exchanged. A literal that runs over one is open then, if pairs
end the lines. -/
def endLines (ending : LineEnding) (lexeme : Lexeme) : Lexeme :=
  match lexeme with
  | ⟨.token .string, quote :: body⟩ =>
    if ending.spares body then ⟨.token .string, Text.endLines ending (quote :: body)⟩
    else ⟨.fault (.unterminatedString quote), [quote]⟩
  | _ => ⟨lexeme.reading, Text.endLines ending lexeme.text⟩

/-- Lexemes stay trivia with other line ends. -/
theorem isTrivia_endLines (lexeme : Lexeme) :
    (lexeme.endLines ending).reading.isTrivia = lexeme.reading.isTrivia := by
  unfold endLines
  split
  · split <;> rfl
  · rfl

/-- Any lexeme but a literal is read as before, with its line ends exchanged. -/
theorem endLines_of_ne {lexeme : Lexeme} (h : lexeme.reading ≠ .token .string) :
    lexeme.endLines ending = ⟨lexeme.reading, Text.endLines ending lexeme.text⟩ := by
  unfold endLines
  split
  · exact (h rfl).elim
  · rfl

/-- A literal is read as before if it is still closed. -/
theorem endLines_of_spares {lexeme : Lexeme} (h : ending.spares lexeme.text = true) :
    lexeme.endLines ending = ⟨lexeme.reading, Text.endLines ending lexeme.text⟩ := by
  unfold endLines
  split
  case h_1 quote body =>
    have hbody : ending.spares body = true := by
      simp only [LineEnding.spares, List.contains_cons, Bool.or_eq_true, Bool.not_or, Bool.and_eq_true] at h ⊢
      exact h.imp_right And.right
    rw [if_pos hbody]
  case h_2 => rfl

/-- A lexeme of one line stays as it is. -/
theorem endLines_of_not_mem {lexeme : Lexeme} (h : '\n' ∉ lexeme.text) : lexeme.endLines ending = lexeme := by
  rw [endLines_of_spares (by simp [LineEnding.spares, h]), endLines_eq_self h]

/-- A literal is read as before, or it is left open. -/
theorem string?_endLines (h : '\r' ∉ window) :
    string? (Text.endLines ending window) = (string? window).map (endLines ending) := by
  cases window with
  | nil => rfl
  | cons c cs =>
    rcases endLines_cons_cases ending c cs with ⟨rfl, more, hmore⟩ | ⟨hfeed, hsame⟩
    · rw [hmore]
      rfl
    rw [hsame, string?, string?]
    by_cases hquote : isQuote c = true
    · have hcs : '\r' ∉ cs := fun hmem => h (List.mem_cons_of_mem _ hmem)
      rw [if_pos hquote, if_pos hquote, closeString?_endLines hquote hcs]
      have hopen : endLines ending ⟨.fault (.unterminatedString c), [c]⟩ =
          ⟨.fault (.unterminatedString c), [c]⟩ := endLines_of_not_mem (by simpa using Ne.symm hfeed)
      cases closeString? c cs with
      | none => exact congrArg some hopen.symm
      | some body =>
        simp only [Option.filter_some, Option.map_some, endLines, endLines_cons_of_ne hfeed]
        cases ending.spares body <;> rfl
    · rw [if_neg hquote, if_neg hquote]
      rfl

end Lexeme

/-- Each rule takes what it took, with other line ends, but for literals that are left open. -/
theorem Rule.apply_endLines {ending : LineEnding} {window : List Char} (h : '\r' ∉ window) (rule : Rule) :
    rule.apply (endLines ending window) = (rule.apply window).map (Lexeme.endLines ending) := by
  by_cases hmem : rule ∈ Rule.withinLine
  · have hsame : rule.apply (endLines ending window) = rule.apply window := by
      cases rule with
      | blank => rw [apply, apply, Lexeme.blank?_endLines]
      | number => rw [apply, apply, Lexeme.number?_endLines]
      | word => rw [apply, apply, Lexeme.word?_endLines]
      | operator => rw [apply, apply, Lexeme.operator?_endLines]
      | delimiter => rw [apply, apply, Lexeme.delimiter?_endLines]
      | _ => exact absurd hmem (by decide)
    rw [hsame]
    cases happly : rule.apply window with
    | none => rfl
    | some lexeme =>
      have hfeed : '\n' ∉ lexeme.text := fun hc => by cases isLineEnd_of_apply hmem happly _ hc
      rw [Option.map_some, Lexeme.endLines_of_not_mem hfeed]
  · cases rule with
    | lineEnd =>
      rw [apply, apply, Lexeme.lineEnd?_endLines h, Option.map_map, Option.map_map]
      rfl
    | comment =>
      rw [apply, apply, Lexeme.comment?_endLines, Option.map_map, Option.map_map]
      rfl
    | string => exact Lexeme.string?_endLines h
    | _ => exact absurd (by decide) hmem

/-- With other line ends a text opens with the lexeme it opened with, unless that is a literal that is left
open. -/
theorem classify_endLines {ending : LineEnding} {window : List Char} (h : '\r' ∉ window) :
    classify (endLines ending window) = (classify window).map (Lexeme.endLines ending) := by
  cases window with
  | nil => rfl
  | cons c cs =>
    by_cases hfeed : c = '\n'
    · subst hfeed
      rw [classify_lineFeed]
      exact classify_of_apply (Rule.apply_endLines h .lineEnd) fun hstring => by cases hstring
    · have hrules : Rule.priority.findSome? (Rule.apply (endLines ending (c :: cs))) =
          (Rule.priority.findSome? (Rule.apply (c :: cs))).map (Lexeme.endLines ending) := by
        rw [List.map_findSome?]
        exact congrArg (List.findSome? · _) (funext fun rule => Rule.apply_endLines h rule)
      have hother : Lexeme.endLines ending ⟨.fault (.unrecognisedCharacter c), [c]⟩ =
          ⟨.fault (.unrecognisedCharacter c), [c]⟩ :=
        Lexeme.endLines_of_not_mem (by simpa using Ne.symm hfeed)
      rw [endLines_cons_of_ne hfeed] at hrules ⊢
      rw [classify, classify, classifyBy, classifyBy, hrules, Option.map_some,
        ← Option.getD_map (Lexeme.endLines ending), hother]

end Offside
