import Offside.Proofs.Lexeme.Context

/-!
# What stands behind a lexeme

A lexeme looks ahead, so the text behind it matters: it must not go on with the lexeme. It matters only
that far. Blanking out some of its characters leaves a token, a comment or a line end as it was, and so
does cutting it short.

Line ends are not blanked out, since they end comments and are read in pairs. Faults and runs of blanks are
left aside: a literal that nothing closes may be closed in the thinned text, and a run of blanks may go on.
-/

namespace Offside

namespace Text

/-- A text thins to a front of it in which some characters, but no line ends, are blanked out. -/
inductive ThinsTo : List Char → List Char → Prop where
  | nil (text : List Char) : ThinsTo text []
  | keep {a b : List Char} (c : Char) (h : ThinsTo a b) : ThinsTo (c :: a) (c :: b)
  | blank {a b : List Char} {c : Char} (hc : isLineEnd c = false) (h : ThinsTo a b) :
      ThinsTo (c :: a) (' ' :: b)

namespace ThinsTo

variable {a b : List Char}

/-- What stands in front of both texts can be the same. -/
theorem append_left (text : List Char) (h : ThinsTo a b) : ThinsTo (text ++ a) (text ++ b) := by
  induction text with
  | nil => exact h
  | cons c cs ih => exact .keep c ih

/-- A text thins to each of its fronts. -/
theorem of_append (a b : List Char) : ThinsTo (a ++ b) a := by
  simpa using (ThinsTo.nil b).append_left a

/-- A text thins to itself. -/
theorem refl (text : List Char) : ThinsTo text text := by
  simpa using of_append text []

/-- Only the empty text is left of the empty text. -/
theorem eq_nil (h : ThinsTo [] b) : b = [] := by
  cases h
  rfl

/-- The first character that is left was there before, or it is a space in place of another. -/
theorem head?_cases (h : ThinsTo a b) {d : Char} (hd : b.head? = some d) :
    a.head? = some d ∨ d = ' ' ∧ ∃ c, a.head? = some c ∧ isLineEnd c = false := by
  cases h with
  | nil => cases hd
  | keep c h => exact .inl hd
  | @blank _ _ c hc h => exact .inr ⟨(Option.some.inj hd).symm, c, rfl, hc⟩

/-- What a text does not go on with, and no space does, it does not go on with when thinned. -/
theorem stops {p : Char → Bool} (h : ThinsTo a b) (hspace : p ' ' = false)
    (hstop : ∀ c, a.head? = some c → p c = false) : ∀ d, b.head? = some d → p d = false := by
  intro d hd
  rcases h.head?_cases hd with hsame | ⟨rfl, -⟩
  · exact hstop d hsame
  · exact hspace

/-- No pair is cut that was not cut before. -/
theorem cutsPair (h : ThinsTo a b) {text : List Char} (hcut : CutsPair text b) : CutsPair text a := by
  obtain ⟨hreturn, hfeed⟩ := hcut
  rcases h.head?_cases hfeed with hsame | ⟨hspace, -⟩
  · exact ⟨hreturn, hsame⟩
  · exact absurd hspace (by decide)

/-- A text that goes on with a line end, if at all, still does when thinned. -/
theorem ends (h : ThinsTo a b) (hend : ∀ c, a.head? = some c → isLineEnd c = true) :
    ∀ d, b.head? = some d → isLineEnd d = true := by
  intro d hd
  rcases h.head?_cases hd with hsame | ⟨-, c, hc, hother⟩
  · exact hend d hsame
  · exact absurd (hend c hc) (by simp [hother])

end ThinsTo

end Text

open Text

namespace Lexeme

/-- A literal is closed within itself. -/
theorem closeString?_self {quote : Char} {text body : List Char}
    (h : closeString? quote text = some body) (hquote : quote ≠ '\\') :
    closeString? quote body = some body := by
  have hliteral := ((closeString?_eq_some_iff hquote).1 h).2
  exact (closeString?_eq_some_iff hquote).2 ⟨List.prefix_refl body, hliteral⟩

/-- A single line end that is no half of a pair is read on its own. -/
theorem lineEnd?_of_single {c : Char} {cs : List Char} (hend : isLineEnd c = true)
    (hwhole : ¬ CutsPair [c] cs) : lineEnd? (c :: cs) = some [c] := by
  unfold lineEnd?
  split
  case h_1 heq =>
    obtain ⟨rfl, rfl⟩ := List.cons.inj heq
    exact absurd ⟨rfl, rfl⟩ hwhole
  case h_2 heq =>
    obtain ⟨rfl, rfl⟩ := List.cons.inj heq
    rw [if_pos hend]
  case h_3 heq => cases heq

/-- Digits that are a number have no point and another digit behind them. -/
theorem isDigit_eq_false_of_number? {text rest : List Char} (hne : text ≠ [])
    (hdigits : ∀ c ∈ text, c.isDigit = true) (h : number? (text ++ rest) = some text) :
    ∀ cs, rest = '.' :: cs → ∀ c, cs.head? = some c → c.isDigit = false := by
  intro cs hcs c hc
  by_contra hdigit
  rw [Bool.not_eq_false] at hdigit
  have hfraction : cs.takeWhile Char.isDigit ≠ [] := by
    obtain ⟨ds, rfl⟩ := List.head?_eq_some_iff.1 hc
    simp [hdigit]
  have hlonger := number?_of_fraction hne hfraction hdigits (fun _ => List.mem_takeWhile_imp)
    (head?_dropWhile_eq_false Char.isDigit cs)
  rw [List.append_assoc, List.cons_append, List.takeWhile_append_dropWhile, ← hcs, h] at hlonger
  simpa using Option.some.inj hlonger

/-- Digits that are a number stay one when what stands behind them is thinned. -/
theorem number?_digits_thin {text rest rest' : List Char} (hne : text ≠ [])
    (hdigits : ∀ c ∈ text, c.isDigit = true) (hstop : ∀ c, rest.head? = some c → c.isDigit = false)
    (h : number? (text ++ rest) = some text) (hthin : ThinsTo rest rest') :
    number? (text ++ rest') = some text := by
  have hpoint := isDigit_eq_false_of_number? hne hdigits h
  refine number?_of_digits hne hdigits (hthin.stops (by decide) hstop) ?_
  rintro ds rfl
  cases hthin with
  | keep c hthin => exact hthin.stops (by decide) (hpoint _ rfl)

/-- A block that ends where a text goes on ends there when that text is thinned. -/
theorem closeBlock_thin {quote : Char} {cs rest rest' : List Char} (h : closeBlock quote cs ++ rest = cs)
    (hthin : ThinsTo rest rest') : closeBlock quote (closeBlock quote cs ++ rest') = closeBlock quote cs := by
  by_cases hrest : rest = []
  · subst hrest
    rw [hthin.eq_nil, h]
  · refine closeBlock_append (fun hwhole => hrest ?_) rest'
    rw [hwhole] at h
    simpa using h

/-- Whether two characters spell an operator is decided by the first character behind the first of them. -/
theorem operator?_thin {symbol : Operator} {rest rest' : List Char} (hthin : ThinsTo rest rest')
    (h : operator? (symbol.spelling.toList ++ rest) = some (symbol, symbol.spelling.toList)) :
    operator? (symbol.spelling.toList ++ rest') = some (symbol, symbol.spelling.toList) := by
  cases rest' with
  | nil => exact operator?_of_spelling symbol fun c hc => by cases hc
  | cons d ds =>
    rcases hthin.head?_cases rfl with hsame | ⟨rfl, -⟩
    · obtain ⟨cs, rfl⟩ := List.head?_eq_some_iff.1 hsame
      have hpositive : 1 ≤ symbol.spelling.toList.length := by
        cases symbol <;> decide
      have htake : ∀ count ≤ 2, (symbol.spelling.toList ++ d :: ds).take count =
          (symbol.spelling.toList ++ d :: cs).take count := by
        intro count hcount
        obtain ⟨left, hleft⟩ : ∃ left, count - symbol.spelling.toList.length = left ∧ left ≤ 1 :=
          ⟨_, rfl, by omega⟩
        rw [List.take_append, List.take_append, hleft.1]
        obtain rfl | rfl : left = 0 ∨ left = 1 := by omega
        · rfl
        · rfl
      rw [operator?_eq] at h ⊢
      rw [htake 2 le_rfl, htake 1 (by decide), h]
    · exact operator?_of_spelling symbol (forall_head?_cons (.inl rfl) ds)

/-- A quote that opens no block opens none when what stands behind its literal is thinned. -/
theorem comment?_thin {quote : Char} {body rest rest' : List Char} (hquote : isQuote quote = true)
    (hbody : body ≠ []) (h : comment? (quote :: body ++ rest) = none) (hthin : ThinsTo rest rest') :
    comment? (quote :: body ++ rest') = none := by
  rw [List.cons_append, comment?_eq_none_iff hquote] at h ⊢
  intro hblock
  match body with
  | [] => exact hbody rfl
  | [b] =>
    obtain ⟨rfl, hrest⟩ := List.cons_prefix_cons.1 hblock
    obtain ⟨more, hmore⟩ : [quote] <+: rest' := hrest
    have hhead : rest'.head? = some quote := by
      rw [← hmore]
      rfl
    rcases hthin.head?_cases hhead with hsame | ⟨rfl, -⟩
    · obtain ⟨cs, rfl⟩ := List.head?_eq_some_iff.1 hsame
      exact h ⟨cs, rfl⟩
    · exact absurd hquote (by decide)
  | b :: c :: ds => exact h (by simpa [List.cons_prefix_cons] using hblock)

end Lexeme

open Lexeme

/-- A rule that reads a token, a comment or a line end reads it too when the text behind is thinned. -/
theorem Rule.apply_thin {rule : Rule} {reading : Reading} {text rest rest' : List Char}
    (h : rule.apply (text ++ rest) = some ⟨reading, text⟩) (hblank : reading ≠ .blank)
    (hfault : ∀ fault, reading ≠ .fault fault) (hthin : ThinsTo rest rest') :
    rule.apply (text ++ rest') = some ⟨reading, text⟩ := by
  cases takes_of_apply h with
  | blanks htext hne => exact absurd rfl hblank
  | pair hwindow => rfl
  | @single c cs hwindow hend hwhole =>
    obtain rfl : rest = cs := by simpa using hwindow
    have hwhole' : ¬ CutsPair [c] rest' := fun hcut => hwhole (hthin.cutsPair hcut)
    rw [apply, List.singleton_append, lineEnd?_of_single hend hwhole']
    rfl
  | @remark cs hwindow =>
    have hstop := stop_of_takeWhile_append (List.cons.inj hwindow).2
    have hend := hthin.ends fun c hc => by simpa using hstop c hc
    rw [apply, List.cons_append, comment?, takeWhile_append_of_stop (fun c hc => by
      simpa using List.mem_takeWhile_imp hc) (fun c hc => by simp [hend c hc])]
    rfl
  | @block quote cs hwindow hquote =>
    have hclosed := closeBlock_thin (by simpa using hwindow) hthin
    rw [apply, List.cons_append, List.cons_append, List.cons_append, comment?_of_block hquote, hclosed]
    rfl
  | @literal quote cs body hwindow hquote hclosed =>
    have hself := closeString?_self hclosed (ne_backslash_of_isQuote hquote)
    exact string?_of_closed hquote hself rest'
  | unclosed hwindow hquote hopen => exact absurd rfl (hfault _)
  | digits htext hne =>
    have hdigits := forall_of_eq_takeWhile htext
    have hstop : ∀ c, rest.head? = some c → c.isDigit = false :=
      stop_of_takeWhile_append (by rw [← htext])
    have hnumber : number? (text ++ rest) = some text := by simpa [apply] using h
    rw [apply, number?_digits_thin hne hdigits hstop hnumber hthin]
    rfl
  | @fraction whole digits cs hwhole hne hpoint hdigits hne' =>
    have hwhole' := forall_of_eq_takeWhile hwhole
    have hdigits' := forall_of_eq_takeWhile hdigits
    have hcs : cs.takeWhile Char.isDigit ++ rest = cs := by
      have hwindow := List.takeWhile_append_dropWhile (p := Char.isDigit) (l := whole ++ '.' :: digits ++ rest)
      rw [← hwhole, hpoint] at hwindow
      rw [← hdigits]
      simpa using hwindow.symm
    have hstop := hthin.stops (by decide) (stop_of_takeWhile_append hcs)
    rw [apply, number?_of_fraction hne hne' hwhole' hdigits' hstop]
    rfl
  | @name c cs hwindow hstart =>
    have hstop := hthin.stops (by decide) (stop_of_takeWhile_append (List.cons.inj hwindow).2)
    rw [apply, word?_of_name hstart (fun d hd => List.mem_takeWhile_imp hd) hstop]
    rfl
  | @operator symbol count hcount htext =>
    have hsame : operator? (symbol.spelling.toList ++ rest) = some (symbol, symbol.spelling.toList) := by
      simpa [apply] using h
    rw [apply, operator?_thin hthin hsame]
    rfl
  | @delimiter symbol htext =>
    rw [apply, delimiter?_of_spelling symbol rest']
    rfl

/-- A token, a comment or a line end is read too when the text behind it is thinned. -/
theorem classify_thin {reading : Reading} {text rest rest' : List Char}
    (h : classify (text ++ rest) = some ⟨reading, text⟩) (hblank : reading ≠ .blank)
    (hfault : ∀ fault, reading ≠ .fault fault) (hthin : ThinsTo rest rest') :
    classify (text ++ rest') = some ⟨reading, text⟩ := by
  rcases classify_cases h with ⟨rule, happly, hcomment⟩ | ⟨c, cs, -, -, heq⟩
  · refine classify_of_apply (Rule.apply_thin happly hblank hfault hthin) fun hstring => ?_
    subst hstring
    cases Rule.takes_of_apply happly with
    | @literal quote cs body hwindow hquote hclosed =>
      have hbody : body ≠ [] := by
        rintro rfl
        cases getLast?_of_closeString? hclosed
      exact comment?_thin hquote hbody (hcomment rfl) hthin
    | unclosed hwindow hquote hopen => exact absurd rfl (hfault _)
  · cases heq
    exact absurd rfl (hfault _)

end Offside
