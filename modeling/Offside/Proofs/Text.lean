import Mathlib.Data.List.DropRight
import Mathlib.Tactic.ByContra
import Offside.Text.Basic

/-!
# Cutting a text

A text can be cut between any two of its characters, and byte indices name these cuts. One sort of cut
is special: between a carriage return and the line feed behind it, where half a line end stands on
either side.

Line breaks are counted on the whole text in front of a cut, so a carriage return that is its last
character counts as a break of its own, whatever stands behind the cut.
-/

namespace Offside.Text

/-! ### Runs of characters -/

/-- A run ends where the first other character stands. -/
theorem takeWhile_append_of_stop {p : Char → Bool} {run rest : List Char} (hrun : ∀ c ∈ run, p c = true)
    (hstop : ∀ c, rest.head? = some c → p c = false) : (run ++ rest).takeWhile p = run := by
  rw [List.takeWhile_append_of_pos hrun]
  cases rest with
  | nil => simp
  | cons c cs => simp [hstop c rfl]

/-- Behind a run stands the first other character. -/
theorem dropWhile_append_of_stop {p : Char → Bool} {run rest : List Char} (hrun : ∀ c ∈ run, p c = true)
    (hstop : ∀ c, rest.head? = some c → p c = false) : (run ++ rest).dropWhile p = rest := by
  rw [List.dropWhile_append_of_pos hrun]
  cases rest with
  | nil => rfl
  | cons c cs => simp [hstop c rfl]

/-- A beginning of a text whose characters all go on with a run is a beginning of the run. -/
theorem isPrefix_takeWhile {p : Char → Bool} {front text : List Char} (h : front <+: text)
    (hfront : ∀ c ∈ front, p c = true) : front <+: text.takeWhile p := by
  obtain ⟨rest, rfl⟩ := h
  rw [List.takeWhile_append_of_pos hfront]
  exact List.prefix_append front _

/-- All characters of the run at the front of a text are of its sort. -/
theorem forall_of_eq_takeWhile {p : Char → Bool} {run text : List Char} (h : run = text.takeWhile p) :
    ∀ c ∈ run, p c = true := by
  intro c hc
  rw [h] at hc
  exact List.mem_takeWhile_imp hc

/-- A run that is not empty has the first character of the text in it. -/
theorem of_takeWhile_cons_ne_nil {p : Char → Bool} {c : Char} {cs : List Char}
    (h : (c :: cs).takeWhile p ≠ []) : p c = true := by
  by_contra hc
  exact h (List.takeWhile_cons_of_neg hc)

/-- Behind a run stands a character that is not of the run. -/
theorem head?_dropWhile_eq_false (p : Char → Bool) (text : List Char) :
    ∀ c, (text.dropWhile p).head? = some c → p c = false := by
  intro c hc
  obtain ⟨cs, hcs⟩ := List.head?_eq_some_iff.1 hc
  have hhead := List.head_dropWhile_not p (by simp [hcs] : text.dropWhile p ≠ [])
  simpa [hcs] using hhead

/-- What stands behind the run at the front of a text does not go on with it. -/
theorem stop_of_takeWhile_append {p : Char → Bool} {text rest : List Char}
    (h : text.takeWhile p ++ rest = text) : ∀ c, rest.head? = some c → p c = false := by
  have hrest : rest = text.dropWhile p :=
    List.append_cancel_left (h.trans List.takeWhile_append_dropWhile.symm)
  rw [hrest]
  exact head?_dropWhile_eq_false p text

/-- A run at the front of a text can be told from what stands behind it. -/
theorem run_append_inj {p : Char → Bool} {run run' rest rest' : List Char} (hrun : ∀ c ∈ run, p c = true)
    (hrun' : ∀ c ∈ run', p c = true) (hstop : ∀ c, rest.head? = some c → p c = false)
    (hstop' : ∀ c, rest'.head? = some c → p c = false) (h : run ++ rest = run' ++ rest') :
    run = run' ∧ rest = rest' := by
  have hsame : run = run' := by
    rw [← takeWhile_append_of_stop hrun hstop, h, takeWhile_append_of_stop hrun' hstop']
  subst hsame
  exact ⟨rfl, List.append_cancel_left h⟩

/-- A run at the end of a text can be told from what stands in front of it. -/
theorem append_run_inj {p : Char → Bool} {front front' run run' : List Char} (hrun : ∀ c ∈ run, p c = true)
    (hrun' : ∀ c ∈ run', p c = true) (hstop : ∀ c, front.getLast? = some c → p c = false)
    (hstop' : ∀ c, front'.getLast? = some c → p c = false) (h : front ++ run = front' ++ run') :
    front = front' ∧ run = run' := by
  have hreverse : run.reverse ++ front.reverse = run'.reverse ++ front'.reverse := by
    rw [← List.reverse_append, h, List.reverse_append]
  obtain ⟨hruns, hfronts⟩ := run_append_inj (by simpa using hrun) (by simpa using hrun')
    (by simpa using hstop) (by simpa using hstop') hreverse
  exact ⟨List.reverse_injective hfronts, List.reverse_injective hruns⟩

/-- What holds of the first character holds of whichever character comes first. -/
theorem forall_head?_cons {q : Char → Prop} {c : Char} (h : q c) (cs : List Char) :
    ∀ d, (c :: cs).head? = some d → q d := by
  intro d hd
  rw [← Option.some.inj hd]
  exact h

/-! ### Byte indices -/

/-- The bytes of a text from an index on, unless the index falls inside a character or beyond the end. -/
def dropBytes? (bytes : Nat) (text : List Char) : Option (List Char) :=
  (takeBytes? bytes text).map fun front => text.drop front.length

/-- The piece of a text between two byte indices. -/
def slice? (start stop : Nat) (text : List Char) : Option (List Char) :=
  (dropBytes? start text).bind (takeBytes? (stop - start))

/-- The byte length of a beginning of a text names the cut behind it. -/
theorem takeBytes?_append (front rest : List Char) :
    takeBytes? (byteLength front) (front ++ rest) = some front := by
  induction front with
  | nil => cases rest <;> rfl
  | cons c cs ih =>
    have hpos := c.utf8Size_pos
    obtain ⟨bytes, hbytes⟩ : ∃ bytes, byteLength (c :: cs) = bytes + 1 :=
      ⟨byteLength (c :: cs) - 1, by simp only [byteLength_cons]; omega⟩
    rw [hbytes, List.cons_append, takeBytes?, ← hbytes, byteLength_cons,
      if_neg (by omega), Nat.add_sub_cancel_left, ih]
    rfl

/-- Dropping the byte length of a beginning of a text leaves the rest. -/
theorem dropBytes?_append (front rest : List Char) :
    dropBytes? (byteLength front) (front ++ rest) = some rest := by
  simp [dropBytes?, takeBytes?_append]

/-- A piece of a text is found again between its two byte indices. -/
theorem slice?_append (front piece rest : List Char) :
    slice? (byteLength front) (byteLength (front ++ piece)) (front ++ piece ++ rest) = some piece := by
  rw [slice?, List.append_assoc, dropBytes?_append, byteLength_append, Nat.add_sub_cancel_left]
  exact takeBytes?_append piece rest

/-- Only the empty text takes no bytes. -/
theorem byteLength_pos {text : List Char} (h : text ≠ []) : 0 < byteLength text := by
  cases text with
  | nil => exact absurd rfl h
  | cons c cs =>
    have hpos := c.utf8Size_pos
    rw [byteLength_cons]
    omega

/-- Of two beginnings of a text, the one with no more bytes is a beginning of the other. -/
theorem isPrefix_of_byteLength_le {a b text : List Char} (ha : a <+: text) (hb : b <+: text)
    (hle : byteLength a ≤ byteLength b) : a <+: b := by
  rcases List.prefix_or_prefix_of_prefix ha hb with hshort | ⟨more, rfl⟩
  · exact hshort
  · have hnone : more = [] := by
      by_contra hmore
      have hpos := byteLength_pos hmore
      rw [byteLength_append] at hle
      omega
    simp [hnone]

/-- A quote is one byte. -/
theorem utf8Size_of_isQuote {quote : Char} (h : isQuote quote = true) : quote.utf8Size = 1 := by
  simp only [isQuote, Bool.or_eq_true, beq_iff_eq] at h
  rcases h with rfl | rfl <;> decide

/-! ### Line breaks -/

/-- Whether a cut falls inside a pair of line end characters. -/
def CutsPair (before after : List Char) : Prop :=
  before.getLast? = some '\r' ∧ after.head? = some '\n'

/-- Only the last character in front of a cut matters. -/
theorem cutsPair_append_left {text : List Char} (h : text ≠ []) (before after : List Char) :
    CutsPair (before ++ text) after ↔ CutsPair text after := by
  rw [CutsPair, CutsPair, List.getLast?_append_of_ne_nil _ h]

/-- Only the first character behind a cut matters. -/
theorem cutsPair_append_right {text : List Char} (h : text ≠ []) (before after : List Char) :
    CutsPair before (text ++ after) ↔ CutsPair before text := by
  rw [CutsPair, CutsPair, List.head?_append_of_ne_nil _ h]

/-- A cut behind a character is inside no pair, unless that is the first half of one. -/
theorem not_cutsPair_singleton {c : Char} {cs : List Char} (hpair : ∀ ds, c = '\r' → cs = '\n' :: ds → False) :
    ¬ CutsPair [c] cs := by
  rintro ⟨hreturn, hfeed⟩
  obtain ⟨ds, hds⟩ := List.head?_eq_some_iff.1 hfeed
  exact hpair ds (Option.some.inj hreturn) hds

/-- The number of line breaks, where a carriage return and a line feed behind it are one. -/
def lineBreaks : List Char → Nat
  | [] => 0
  | '\r' :: '\n' :: cs => lineBreaks cs + 1
  | c :: cs => lineBreaks cs + if isLineEnd c then 1 else 0

/-- The characters behind the last line break. -/
def openLine (text : List Char) : List Char :=
  text.rtakeWhile fun c => !isLineEnd c

/-- A line end leaves nothing behind it, and any other character stays on the line. -/
theorem openLine_concat (text : List Char) (c : Char) :
    openLine (text ++ [c]) = if isLineEnd c then [] else openLine text ++ [c] := by
  rw [openLine, List.rtakeWhile_concat]
  by_cases hc : isLineEnd c <;> simp [hc, openLine]

/-- A character in front of a text is on its last line only when the text has no line end. -/
theorem openLine_cons (c : Char) (cs : List Char) :
    openLine (c :: cs) =
      if cs.any isLineEnd then openLine cs else if isLineEnd c then cs else c :: cs := by
  induction cs using List.reverseRecOn with
  | nil => by_cases hc : isLineEnd c <;> simp [openLine, List.rtakeWhile, hc]
  | append_singleton cs d ih =>
    rw [← List.cons_append, openLine_concat, openLine_concat, ih]
    by_cases hd : isLineEnd d
    · simp [hd]
    · by_cases hcs : cs.any isLineEnd
      · simp [hd, hcs]
      · by_cases hc : isLineEnd c <;> simp [hd, hcs, hc]

end Offside.Text
