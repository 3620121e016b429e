import Offside.Proofs.Lexeme.Context

/-!
# Slices in bytes

A lexeme is a front of the text that is left, so in bytes it is a slice up to some index. Where a block or a
literal stops can be counted in bytes alone, from the places of its quotes, without a look at the characters
in between. Each index that is counted in this way falls between two characters, and where the text opens
with a quote the lexeme stops at one of them.

A literal is gone over character by character, and so is a block up to the three quotes that close it. Both
counts start behind characters of one byte.

Operators and delimiters can be looked up in slices as well. A slice of two bytes may hold one character only, or
be none where it would cut one, but the symbols have one byte for each of their characters, so what is found is the
same.
-/

namespace Offside

namespace Text

variable {text front : List Char} {index : Nat} {quote : Char}

/-- Whether a byte index is in a text or at its end, and falls between two characters. -/
def IsBoundary (index : Nat) (text : List Char) : Prop :=
  ∃ front, takeBytes? index text = some front

/-- A text can be cut behind each of its fronts. -/
theorem isBoundary_of_isPrefix (h : front <+: text) : IsBoundary (byteLength front) text := by
  obtain ⟨rest, rfl⟩ := h
  exact ⟨front, takeBytes?_append front rest⟩

/-- A boundary is not beyond the end. -/
theorem IsBoundary.le (h : IsBoundary index text) : index ≤ byteLength text := by
  obtain ⟨front, hfront⟩ := h
  obtain ⟨rest, rfl⟩ := prefix_of_takeBytes? hfront
  rw [← byteLength_of_takeBytes? hfront, byteLength_append]
  omega

/-- The byte index of the first three quotes in a row. -/
def quotesIndex? (quote : Char) : List Char → Option Nat
  | [] => none
  | c :: cs =>
    if List.replicate 3 quote <+: c :: cs then some 0 else (quotesIndex? quote cs).map (c.utf8Size + ·)

/-- The byte index of the quote that closes a literal, where the text behind the opening quote starts at an
index. -/
def closingIndex? (quote : Char) (index : Nat) : List Char → Option Nat
  | [] => none
  | '\\' :: c :: cs => closingIndex? quote (index + 1 + c.utf8Size) cs
  | c :: cs =>
    if c == quote then some index
    else if isLineEnd c then none
    else closingIndex? quote (index + c.utf8Size) cs

/-- The byte index where a block stops that opens with three quotes, the first of them in front of the text. -/
def blockStop (quote : Char) (text : List Char) : Nat :=
  match quotesIndex? quote (text.drop 2) with
  | some index => 3 + index + 3
  | none => 1 + byteLength text

/-- The byte indices where a text is sliced to read its first lexeme: behind the first character, behind the
literal that a quote opens, and behind the three quotes that open a block and where it stops. -/
def sliceStops : List Char → List Nat
  | [] => []
  | c :: cs =>
    c.utf8Size ::
      if isQuote c then
        ((closingIndex? c 1 cs).map (· + 1)).toList ++ if [c, c] <+: cs then [3, blockStop c cs] else []
      else []

/-- A block stops three bytes behind the place of the quotes that close it, or with the text. -/
theorem byteLength_closeBlock (hquote : isQuote quote = true) (text : List Char) :
    byteLength (Lexeme.closeBlock quote text) =
      ((quotesIndex? quote text).map (· + 3)).getD (byteLength text) := by
  have hsize := utf8Size_of_isQuote hquote
  fun_induction Lexeme.closeBlock quote text with
  | case1 => rfl
  | case2 c cs hclosed =>
    rw [quotesIndex?, if_pos hclosed]
    simp [List.replicate, hsize]
  | case3 c cs hopen ih =>
    rw [quotesIndex?, if_neg hopen, byteLength_cons, ih, byteLength_cons]
    cases quotesIndex? quote cs <;> simp [Nat.add_assoc]

/-- A literal stops one byte behind the place of the quote that closes it. -/
theorem closingIndex?_of_closeString? {body : List Char} (hquote : isQuote quote = true)
    (h : Lexeme.closeString? quote text = some body) (index : Nat) :
    (closingIndex? quote index text).map (· + 1) = some (index + byteLength body) := by
  have hsize := utf8Size_of_isQuote hquote
  fun_induction Lexeme.closeString? quote text generalizing body index with
  | case1 => cases h
  | case2 c cs ih =>
    obtain ⟨inner, hinner, rfl⟩ := Option.map_eq_some_iff.1 h
    have hslash : '\\'.utf8Size = 1 := by decide
    rw [closingIndex?, ih hinner, byteLength_cons, byteLength_cons, hslash]
    simp [Nat.add_assoc]
  | case3 c cs hescape hclosed =>
    cases h
    rw [closingIndex?.eq_3 _ _ _ _ hescape, if_pos hclosed, beq_iff_eq.1 hclosed]
    simp [hsize]
  | case4 => cases h
  | case5 c cs hescape hopen hend ih =>
    obtain ⟨inner, hinner, rfl⟩ := Option.map_eq_some_iff.1 h
    rw [closingIndex?.eq_3 _ _ _ _ hescape, if_neg hopen, if_neg hend, ih hinner, byteLength_cons,
      Nat.add_assoc]

/-- Where no quote closes a literal, no index is found. -/
theorem closingIndex?_eq_none (h : Lexeme.closeString? quote text = none) (index : Nat) :
    closingIndex? quote index text = none := by
  fun_induction Lexeme.closeString? quote text generalizing index with
  | case1 => rfl
  | case2 c cs ih =>
    rw [closingIndex?, ih (Option.map_eq_none_iff.1 h)]
  | case3 => cases h
  | case4 c cs hescape hopen hend =>
    rw [closingIndex?.eq_3 _ _ _ _ hescape, if_neg hopen, if_pos hend]
  | case5 c cs hescape hopen hend ih =>
    rw [closingIndex?.eq_3 _ _ _ _ hescape, if_neg hopen, if_neg hend, ih (Option.map_eq_none_iff.1 h)]

/-- Behind an opening quote, a block stops where it is counted to stop. -/
theorem byteLength_block (hquote : isQuote quote = true) (text : List Char) :
    byteLength (quote :: quote :: quote :: Lexeme.closeBlock quote text) =
      blockStop quote (quote :: quote :: text) := by
  have hsize := utf8Size_of_isQuote hquote
  rw [byteLength_cons, byteLength_cons, byteLength_cons, byteLength_closeBlock hquote, blockStop]
  change _ = match quotesIndex? quote text with
    | some index => 3 + index + 3
    | none => 1 + byteLength (quote :: quote :: text)
  cases quotesIndex? quote text with
  | none => simp [hsize]
  | some index => simp [hsize]; omega

/-- Every index where a text is sliced is in the text, and falls between two characters. -/
theorem isBoundary_of_mem_sliceStops {stop : Nat} (h : stop ∈ sliceStops text) : IsBoundary stop text := by
  cases text with
  | nil => cases h
  | cons c cs =>
    rcases List.mem_cons.1 h with rfl | h
    · exact @isBoundary_of_isPrefix (c :: cs) [c] (by simp)
    by_cases hquote : isQuote c = true
    · have hsize := utf8Size_of_isQuote hquote
      rw [if_pos hquote] at h
      rcases List.mem_append.1 h with h | h
      · cases hclosed : Lexeme.closeString? c cs with
        | none =>
          rw [closingIndex?_eq_none hclosed] at h
          cases h
        | some body =>
          rw [closingIndex?_of_closeString? hquote hclosed, Option.toList_some, List.mem_singleton] at h
          have hlength : stop = byteLength (c :: body) := by rw [h, byteLength_cons, hsize]
          rw [hlength]
          exact isBoundary_of_isPrefix (List.cons_prefix_cons.2 ⟨rfl, Lexeme.prefix_of_closeString? hclosed⟩)
      · split at h
        · rename_i hblock
          obtain ⟨ds, rfl⟩ := hblock
          rcases List.mem_pair.1 h with rfl | rfl
          · have hlength : 3 = byteLength [c, c, c] := by simp [hsize]
            rw [hlength]
            exact isBoundary_of_isPrefix ⟨ds, rfl⟩
          · have hstop := byteLength_block hquote ds
            rw [List.cons_append, List.singleton_append, ← hstop]
            exact isBoundary_of_isPrefix (by simp [List.cons_prefix_cons, Lexeme.closeBlock_prefix])
        · cases h
    · rw [if_neg hquote] at h
      cases h

/-- What is found only of texts with one byte for each character is found of a slice of some bytes where it is found
of as many characters. -/
theorem bind_takeBytes? {α : Type} {lookup : List Char → Option α}
    (hnarrow : ∀ {text symbol}, lookup text = some symbol → byteLength text = text.length)
    (count : Nat) (text : List Char) :
    (takeBytes? count text).bind lookup = if count ≤ text.length then lookup (text.take count) else none := by
  by_cases hfound : count ≤ text.length ∧ ∃ symbol, lookup (text.take count) = some symbol
  · obtain ⟨hcount, symbol, hsymbol⟩ := hfound
    have hlength : byteLength (text.take count) = count := by
      rw [hnarrow hsymbol, List.length_take, min_eq_left hcount]
    have hslice := takeBytes?_append (text.take count) (text.drop count)
    rw [hlength, List.take_append_drop] at hslice
    rw [hslice, if_pos hcount]
    rfl
  · have hnone : (if count ≤ text.length then lookup (text.take count) else none) = none := by
      rw [ite_eq_right_iff]
      intro hcount
      by_contra hsome
      exact hfound ⟨hcount, Option.ne_none_iff_exists'.1 hsome⟩
    rw [hnone, Option.bind_eq_none_iff]
    intro front hfront
    by_contra hsome
    obtain ⟨symbol, hsymbol⟩ := Option.ne_none_iff_exists'.1 hsome
    -- a slice with something in it holds as many characters as bytes
    have hlength : front.length = count := (hnarrow hsymbol).symm.trans (byteLength_of_takeBytes? hfront)
    have hprefix := prefix_of_takeBytes? hfront
    rw [List.prefix_iff_eq_take.1 hprefix, hlength] at hsymbol
    exact hfound ⟨hlength.symm.le.trans hprefix.length_le, symbol, hsymbol⟩

end Text

open Text

/-- Operators have one byte for each character. -/
theorem Operator.byteLength_of_ofText? {text : List Char} {symbol : Operator} (h : ofText? text = some symbol) :
    byteLength text = text.length := by
  rw [ofText?_eq_some_iff.1 h]
  cases symbol <;> decide

/-- Delimiters are one byte. -/
theorem Delimiter.byteLength_of_ofText? {text : List Char} {symbol : Delimiter} (h : ofText? text = some symbol) :
    byteLength text = text.length := by
  rw [ofText?_eq_some_iff.1 h]
  cases symbol <;> decide

namespace Lexeme

/-- The operator at the front is looked up in a slice of two bytes, or else in one of one byte. -/
theorem operator?_eq_slices (window : List Char) :
    (operator? window).map Prod.fst =
      [2, 1].findSome? fun count => (takeBytes? count window).bind Operator.ofText? := by
  simp only [operator?_eq, List.findSome?_cons, List.findSome?_nil, bind_takeBytes? Operator.byteLength_of_ofText?]
  rcases window with _ | ⟨c, _ | ⟨d, ds⟩⟩
  · rfl
  · cases hsymbol : Operator.ofText? [c] <;> simp [hsymbol]
  · cases htwo : Operator.ofText? [c, d] <;> cases hone : Operator.ofText? [c] <;> simp [htwo, hone]

/-- The delimiter at the front is looked up in a slice of one byte. -/
theorem delimiter?_eq_slice (window : List Char) :
    (delimiter? window).map Prod.fst = (takeBytes? 1 window).bind Delimiter.ofText? := by
  rw [delimiter?, bind_takeBytes? Delimiter.byteLength_of_ofText?]
  cases window with
  | nil => rfl
  | cons c cs => cases hsymbol : Delimiter.ofText? [c] <;> simp [hsymbol]

end Lexeme

/-- Where a text opens with a quote, its first lexeme stops at an index where it is sliced. -/
theorem byteLength_mem_sliceStops {c : Char} {window : List Char} {lexeme : Lexeme} (hquote : isQuote c = true)
    (hhead : window.head? = some c) (hlexeme : classify window = some lexeme) :
    byteLength lexeme.text ∈ sliceStops window := by
  obtain ⟨cs, rfl⟩ := List.head?_eq_some_iff.1 hhead
  have hsize := utf8Size_of_isQuote hquote
  rw [sliceStops, if_pos hquote]
  rcases classify_cases hlexeme with ⟨rule, happly, -⟩ | ⟨d, ds, hwindow, -, rfl⟩
  · have hrule := Rule.comment_or_string_of_isQuote (Rule.opensWith_of_apply happly) hquote
    cases Rule.takes_of_apply happly with
    | remark hwindow =>
      cases hwindow
      cases hquote
    | block hwindow _ =>
      cases hwindow
      rw [byteLength_block hquote]
      simp [List.cons_prefix_cons]
    | literal hwindow _ hclosed =>
      cases hwindow
      rw [closingIndex?_of_closeString? hquote hclosed, byteLength_cons, hsize]
      simp
    | unclosed hwindow _ hopen =>
      cases hwindow
      simp
    | _ => rcases hrule with hrule | hrule <;> cases hrule
  · cases hwindow
    simp

end Offside
