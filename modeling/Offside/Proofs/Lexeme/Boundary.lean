import Offside.Proofs.Lexeme.Comments
import Offside.Proofs.Lexeme.Literals
import Offside.Proofs.Lexeme.Priority
import Offside.Proofs.Text

/-!
# Where lexemes end

No lexeme ends between a carriage return and the line feed behind it. A line end takes both characters
of a pair, and no other lexeme ends with a carriage return, except a block comment that is not closed
and so has nothing behind it.

The kinds that classification gives to tokens are those with a text of their own, never the kinds that
layout puts in. A fault takes one character, which is no line end.
-/

namespace Offside

open Text

namespace Kind

/-- Whether tokens of the kind come from layout: line ends, and what stands for no text. -/
def isLayout : Kind → Bool
  | .newline | .indent | .dedent | .endOfInput => true
  | _ => false

/-- Whether tokens of the kind are words: they do not come from layout, and are no comments. -/
def isWord : Kind → Bool
  | .newline | .indent | .dedent | .endOfInput | .comment => false
  | _ => true

/-- Words do not come from layout. -/
theorem isLayout_of_isWord {kind : Kind} (h : kind.isWord = true) : kind.isLayout = false := by
  cases kind <;> first | rfl | cases h

end Kind

namespace Lexeme

/-- A closing quote is the last character of the literal it closes. -/
theorem getLast?_of_closeString? {quote : Char} {text body : List Char}
    (h : closeString? quote text = some body) : body.getLast? = some quote := by
  obtain ⟨units, -, rfl⟩ := isLiteral_cons_iff.1 (isLiteral_of_closeString? h)
  exact List.getLast?_concat

/-- A block runs to the end of the text or ends with its quote. -/
theorem closeBlock_eq_or_getLast? (quote : Char) (text : List Char) :
    closeBlock quote text = text ∨ (closeBlock quote text).getLast? = some quote := by
  rcases isLeastFront_closeBlock quote text with hleast | ⟨hwhole, -⟩
  · obtain ⟨inner, hinner⟩ := hleast.holds
    refine .inr ?_
    rw [← hinner, List.getLast?_append_of_ne_nil _ (by simp)]
    rfl
  · exact .inl hwhole

/-- A cut behind a text without carriage returns is inside no pair. -/
theorem not_cutsPair_of_not_mem {text : List Char} (h : '\r' ∉ text) (rest : List Char) :
    ¬ CutsPair text rest :=
  fun hcut => h (List.mem_of_getLast? hcut.1)

/-- No line end is a quote. -/
theorem isLineEnd_of_isQuote {quote : Char} (hquote : isQuote quote = true) : isLineEnd quote = false := by
  simp only [isQuote, Bool.or_eq_true, beq_iff_eq] at hquote
  rcases hquote with rfl | rfl <;> rfl

/-- No quote is a blank. -/
theorem isBlank_of_isQuote {quote : Char} (hquote : isQuote quote = true) : isBlank quote = false := by
  simp only [isQuote, Bool.or_eq_true, beq_iff_eq] at hquote
  rcases hquote with rfl | rfl <;> rfl

/-- No blank ends a line. -/
theorem isLineEnd_of_isBlank {c : Char} (hblank : isBlank c = true) : isLineEnd c = false := by
  simp only [isBlank, Bool.or_eq_true, beq_iff_eq] at hblank
  rcases hblank with (rfl | rfl) | rfl <;> rfl

/-- A cut in front of blanks is inside no pair. -/
theorem not_cutsPair_of_isBlank {blanks : List Char} (hblank : ∀ c ∈ blanks, isBlank c = true) (text : List Char) :
    ¬ CutsPair text blanks :=
  fun hcut => absurd (hblank '\n' (List.mem_of_head? hcut.2)) (by decide)

/-- A cut behind a text that ends with a quote is inside no pair. -/
theorem not_cutsPair_of_isQuote {text : List Char} {quote : Char} (h : text.getLast? = some quote)
    (hquote : isQuote quote = true) (rest : List Char) : ¬ CutsPair text rest := by
  intro hcut
  obtain rfl : quote = '\r' := Option.some.inj (h.symm.trans hcut.1)
  exact absurd hquote (by decide)

end Lexeme

open Lexeme

/-- No operator is spelled with a line end. -/
theorem Operator.isLineEnd_of_mem_spelling (symbol : Operator) :
    ∀ c ∈ symbol.spelling.toList, isLineEnd c = false := by
  have hspelling : (symbol.spelling.toList.all fun c => !isLineEnd c) = true := by
    cases symbol <;> decide
  simpa using hspelling

/-- No delimiter is spelled with a line end. -/
theorem Delimiter.isLineEnd_of_mem_spelling (symbol : Delimiter) :
    ∀ c ∈ symbol.spelling.toList, isLineEnd c = false := by
  have hspelling : (symbol.spelling.toList.all fun c => !isLineEnd c) = true := by
    cases symbol <;> decide
  simpa using hspelling

/-- A run of characters that end no line has no line end. -/
theorem isLineEnd_of_mem_takeWhile {p : Char → Bool} (hfeed : p '\n' = false) (hreturn : p '\r' = false)
    (text : List Char) : ∀ c ∈ text.takeWhile p, isLineEnd c = false := by
  intro c hc
  have hrun := List.mem_takeWhile_imp hc
  by_contra hend
  simp only [isLineEnd, Bool.not_eq_false, Bool.or_eq_true, beq_iff_eq] at hend
  rcases hend with rfl | rfl
  · exact absurd hrun (by simp [hfeed])
  · exact absurd hrun (by simp [hreturn])

namespace Rule

/-- The rules for what stays on one line. Literals take escaped line ends along, and blocks any. -/
def withinLine : List Rule := [.blank, .number, .word, .operator, .delimiter]

/-- What stays on one line has no line end in it. -/
theorem isLineEnd_of_apply {rule : Rule} {window : List Char} {lexeme : Lexeme} (hmem : rule ∈ withinLine)
    (h : rule.apply window = some lexeme) : ∀ c ∈ lexeme.text, isLineEnd c = false := by
  cases takes_of_apply h with
  | blanks htext hne =>
    rw [htext]
    exact isLineEnd_of_mem_takeWhile rfl rfl window
  | digits htext hne =>
    rw [htext]
    exact isLineEnd_of_mem_takeWhile rfl rfl window
  | @fraction whole digits cs hwhole hne hpoint hdigits hne' =>
    rw [hwhole, hdigits, List.forall_mem_append, List.forall_mem_cons]
    exact ⟨isLineEnd_of_mem_takeWhile rfl rfl window, rfl, isLineEnd_of_mem_takeWhile rfl rfl cs⟩
  | @name c cs hwindow hstart =>
    rw [List.forall_mem_cons]
    refine ⟨?_, isLineEnd_of_mem_takeWhile rfl rfl cs⟩
    exact isLineEnd_of_mem_takeWhile (p := isNameStart) rfl rfl [c] c (by simp [hstart])
  | @operator symbol count hcount htext => exact symbol.isLineEnd_of_mem_spelling
  | @delimiter symbol htext => exact symbol.isLineEnd_of_mem_spelling
  | _ => exact absurd hmem (by decide)

/-- No rule ends its lexeme inside a pair of line end characters. -/
theorem not_cutsPair_of_apply {rule : Rule} {window rest : List Char} {lexeme : Lexeme}
    (h : rule.apply window = some lexeme) (hrest : window = lexeme.text ++ rest) :
    ¬ CutsPair lexeme.text rest := by
  by_cases hmem : rule ∈ withinLine
  · refine not_cutsPair_of_not_mem (fun hc => ?_) rest
    cases isLineEnd_of_apply hmem h _ hc
  cases takes_of_apply h with
  | pair hwindow =>
    intro hcut
    exact absurd (Option.some.inj hcut.1) (by decide)
  | @single c cs hwindow hend hwhole =>
    have hsame : cs = rest := by simpa [hwindow] using hrest
    rwa [← hsame]
  | @remark cs hwindow =>
    refine not_cutsPair_of_not_mem (fun hc => ?_) rest
    rcases List.mem_cons.1 hc with hc | hc
    · exact absurd hc (by decide)
    · exact absurd (List.mem_takeWhile_imp hc) (by decide)
  | @block quote cs hwindow hquote =>
    rcases closeBlock_eq_or_getLast? quote cs with hwhole | hlast
    · -- a block that nothing closes has nothing behind it
      have hnil : rest = [] := by
        rw [hwindow, hwhole] at hrest
        simpa using hrest
      rw [hnil]
      exact fun hcut => by cases hcut.2
    · refine not_cutsPair_of_isQuote ?_ hquote rest
      rw [List.getLast?_cons_cons, List.getLast?_cons_cons, List.getLast?_cons, hlast]
      rfl
  | @literal quote cs body hwindow hquote hclosed =>
    refine not_cutsPair_of_isQuote ?_ hquote rest
    rw [List.getLast?_cons, getLast?_of_closeString? hclosed]
    rfl
  | unclosed hwindow hquote hopen => exact not_cutsPair_of_isQuote rfl hquote rest
  | _ => exact absurd (by decide) hmem

end Rule

/-- A text that opens with a line end has a lexeme for it. -/
theorem Lexeme.lineEnd?_ne_none {c : Char} (h : isLineEnd c = true) (cs : List Char) :
    lineEnd? (c :: cs) ≠ none := by
  unfold lineEnd?
  split <;> simp_all

/-- No lexeme ends inside a pair of line end characters. -/
theorem not_cutsPair_of_classify {window rest : List Char} {lexeme : Lexeme}
    (h : classify window = some lexeme) (hrest : window = lexeme.text ++ rest) :
    ¬ CutsPair lexeme.text rest := by
  rcases classify_cases h with ⟨rule, happly, -⟩ | ⟨c, cs, rfl, hnone, rfl⟩
  · exact Rule.not_cutsPair_of_apply happly hrest
  · intro hcut
    obtain rfl : c = '\r' := Option.some.inj hcut.1
    have hend : lineEnd? ('\r' :: cs) = none := by simpa [Rule.apply] using hnone .lineEnd
    exact lineEnd?_ne_none (by decide) cs hend

/-- A fault is one character, which is no line end. -/
theorem exists_of_classify_fault {window text : List Char} {fault : Fault}
    (h : classify window = some ⟨.fault fault, text⟩) :
    ∃ c cs, window = c :: cs ∧ text = [c] ∧ isLineEnd c = false := by
  rcases classify_cases h with ⟨rule, happly, -⟩ | ⟨c, cs, rfl, hnone, heq⟩
  · cases Rule.takes_of_apply happly with
    | @unclosed quote cs hwindow hquote hopen =>
      exact ⟨quote, cs, hwindow, rfl, isLineEnd_of_isQuote hquote⟩
  · cases heq
    refine ⟨c, cs, rfl, rfl, ?_⟩
    by_contra hend
    rw [Bool.not_eq_false] at hend
    have hnone' := hnone .lineEnd
    rw [Rule.apply, Option.map_eq_none_iff] at hnone'
    exact Lexeme.lineEnd?_ne_none hend cs hnone'

/-- The kind of a name is a keyword or the kind of names. -/
theorem Kind.isWord_ofWord (text : List Char) : (Kind.ofWord text).isWord = true := by
  unfold Kind.ofWord
  split <;> rfl

/-- Classification gives tokens of words only. -/
theorem isWord_of_classify {window : List Char} {kind : Kind} {text : List Char}
    (h : classify window = some ⟨.token kind, text⟩) : kind.isWord = true := by
  rcases classify_cases h with ⟨rule, happly, -⟩ | ⟨c, cs, -, -, heq⟩
  · cases Rule.takes_of_apply happly with
    | name hwindow hstart => exact Kind.isWord_ofWord _
    | _ => rfl
  · cases heq

/-- Classification gives no token of a layout kind. -/
theorem isLayout_of_classify {window : List Char} {kind : Kind} {text : List Char}
    (h : classify window = some ⟨.token kind, text⟩) : kind.isLayout = false :=
  Kind.isLayout_of_isWord (isWord_of_classify h)

end Offside
