import Offside.Proofs.Position

/-!
# Advancing in parts

Advancing over a text looks at the character that comes next, so it matters where a text is cut. Between two parts
there is one cut that matters, inside a pair of line end characters. Either half then ends a line of its own, and
every position from there on is one line too far, in the same column and at the same index.

Advancing character by character takes every carriage return for the first half of a pair, so only line feeds end
lines. It agrees with advancing over the text at once if each carriage return has its line feed behind it. The
others are the lines that it misses, and there is no other difference in lines or indices.
-/

namespace Offside.Position

open Text

variable (p : Position) {c : Char} {cs text a b : List Char}

/-! ### Two parts -/

/-- Where a pair is cut between two parts, its line feed ends another line. -/
theorem advanceOver_append_of_cutsPair (h : CutsPair a b) :
    (p.advanceOver a).advanceOver b = (p.advanceOver (a ++ b)).shift 1 0 := by
  obtain ⟨hreturn, hfeed⟩ := h
  obtain ⟨front, rfl⟩ := List.getLast?_eq_some_iff.1 hreturn
  obtain ⟨rest, rfl⟩ := List.head?_eq_some_iff.1 hfeed
  have hcut : ∀ after, ¬ CutsPair front ('\r' :: after) := fun _ hcut => absurd hcut.2 (by simp)
  rw [List.append_assoc, List.singleton_append, advanceOver_append p (hcut _), advanceOver_append p (hcut _)]
  generalize p.advanceOver front = q
  -- both ways go on behind the line feed, one of them a line further down
  have hsplit : ¬ CutsPair ['\n'] rest := fun hcut => absurd hcut.1 (by decide)
  have hsplit' : ¬ CutsPair ['\r', '\n'] rest := fun hcut => absurd hcut.1 (by decide)
  calc (q.advanceOver ['\r']).advanceOver ('\n' :: rest)
    _ = ((q.advanceOver ['\r']).advanceOver ['\n']).advanceOver rest := advanceOver_append _ hsplit
    _ = ((q.advanceOver ['\r', '\n']).shift 1 0).advanceOver rest := rfl
    _ = ((q.advanceOver ['\r', '\n']).advanceOver rest).shift 1 0 := advanceOver_shift _ 1 0 rest
    _ = (q.advanceOver ('\r' :: '\n' :: rest)).shift 1 0 :=
      congrArg (shift · 1 0) (advanceOver_append q hsplit').symm

/-- Advancing over two parts is advancing over both at once, unless they cut a pair between them: then it is one
line further, in the same column and at the same index. The index always grows by the length in bytes. -/
theorem advanceOver_in_two (a b : List Char) :
    ((p.advanceOver a).advanceOver b = p.advanceOver (a ++ b) ↔ ¬ CutsPair a b) ∧
    (CutsPair a b → (p.advanceOver a).advanceOver b = (p.advanceOver (a ++ b)).shift 1 0) ∧
    ∀ text, (p.advanceOver text).index = p.index + byteLength text := by
  refine ⟨⟨fun hsame hcut => ?_, fun hwhole => (advanceOver_append p hwhole).symm⟩,
    advanceOver_append_of_cutsPair p, index_advanceOver p⟩
  have hline := congrArg line hsame
  rw [advanceOver_append_of_cutsPair p hcut, shift] at hline
  exact absurd hline (Nat.succ_ne_self _)

/-! ### Character by character -/

/-- The number of carriage returns without a line feed behind them. -/
def loneReturns : List Char → Nat
  | [] => 0
  | c :: cs => loneReturns cs + if c = '\r' ∧ cs.head? ≠ some '\n' then 1 else 0

/-- There are none if each carriage return has its line feed. -/
theorem loneReturns_eq_zero_iff :
    loneReturns text = 0 ↔ ∀ before after, text = before ++ '\r' :: after → after.head? = some '\n' := by
  induction text with
  | nil => simp [loneReturns]
  | cons c cs ih =>
    have hcons : loneReturns (c :: cs) = 0 ↔ loneReturns cs = 0 ∧ (c = '\r' → cs.head? = some '\n') := by
      rw [loneReturns, Nat.add_eq_zero_iff]
      simp
    rw [hcons, ih]
    constructor
    · rintro ⟨hlater, hfirst⟩ before after htext
      cases before with
      | nil =>
        obtain ⟨hc, rfl⟩ := List.cons.inj htext
        exact hfirst hc
      | cons d before => exact hlater before after (List.cons.inj htext).2
    · intro hall
      exact ⟨fun before after htext => hall (c :: before) after (by rw [htext]; rfl),
        fun hc => hall [] cs (by rw [hc]; rfl)⟩

/-- Line breaks are line feeds, with a carriage return in front or not, and lone carriage returns. -/
theorem lineBreaks_eq_add (text : List Char) : lineBreaks text = text.count '\n' + loneReturns text := by
  fun_induction lineBreaks text with
  | case1 => rfl
  | case2 cs ih =>
    simp only [List.count_cons, loneReturns, ih]
    simp
    omega
  | case3 c cs hpair ih =>
    have hlone : c = '\r' → cs.head? ≠ some '\n' := fun hc hhead =>
      not_cutsPair_singleton hpair ⟨congrArg some hc, hhead⟩
    rw [List.count_cons, loneReturns, ih]
    by_cases hfeed : c = '\n'
    · simp [hfeed, isLineEnd]
      omega
    · by_cases hreturn : c = '\r'
      · simp [hreturn, hlone hreturn, isLineEnd]
        omega
      · simp [hfeed, hreturn, isLineEnd]

/-- Where each character is taken alone, lines end at line feeds only. -/
theorem line_foldl_advance (text : List Char) : (text.foldl advance p).line = p.line + text.count '\n' := by
  induction text generalizing p with
  | nil => rfl
  | cons c cs ih =>
    have hends : endsLine c (some '\n') = (c == '\n') := by simp [endsLine]
    rw [List.foldl_cons, ih, advance, advanceBefore, hends, List.count_cons]
    split <;> dsimp only <;> omega

/-- The index grows by the bytes of each character. -/
theorem index_foldl_advance (text : List Char) :
    (text.foldl advance p).index = p.index + byteLength text := by
  induction text generalizing p with
  | nil => rfl
  | cons c cs ih =>
    rw [List.foldl_cons, ih, advance, index_advanceBefore, byteLength_cons, Nat.add_assoc]

/-- Without lone carriage returns, nothing is lost by taking each character alone. -/
theorem foldl_advance_eq (h : loneReturns text = 0) : text.foldl advance p = p.advanceOver text := by
  induction text generalizing p with
  | nil => rfl
  | cons c cs ih =>
    obtain ⟨hlater, hlone⟩ := Nat.add_eq_zero_iff.1 h
    have hends : endsLine c (some '\n') = endsLine c cs.head? := by
      by_cases hc : c = '\r'
      · have hhead : cs.head? = some '\n' := by simpa [hc] using hlone
        rw [hhead]
      · simp [endsLine, hc]
    rw [List.foldl_cons, ih _ hlater, advanceOver_cons, advance, advanceBefore, advanceBefore, hends]

/-- Advancing character by character is advancing over the text at once if each carriage return has its line feed
behind it. Whether it is or not, the indices agree, and it misses as many lines as there are lone carriage
returns. -/
theorem foldl_advance_eq_iff (text : List Char) :
    (text.foldl advance p = p.advanceOver text ↔
      ∀ before after, text = before ++ '\r' :: after → after.head? = some '\n') ∧
    (text.foldl advance p).index = (p.advanceOver text).index ∧
    (p.advanceOver text).line = (text.foldl advance p).line + loneReturns text := by
  have hline : (p.advanceOver text).line = (text.foldl advance p).line + loneReturns text := by
    rw [line_advanceOver, line_foldl_advance, lineBreaks_eq_add, Nat.add_assoc]
  refine ⟨?_, by rw [index_foldl_advance, index_advanceOver], hline⟩
  rw [← loneReturns_eq_zero_iff]
  refine ⟨fun hsame => ?_, foldl_advance_eq p⟩
  rw [hsame] at hline
  omega

example : "\r\r\n\r".toList.foldl advance start = ⟨2, 1, 4⟩ ∧
    start.advanceOver "\r\r\n\r".toList = ⟨4, 0, 4⟩ ∧ loneReturns "\r\r\n\r".toList = 2 := by decide

end Offside.Position
