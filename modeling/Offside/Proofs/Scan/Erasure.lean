import Offside.Proofs.Lexeme.Thinning
import Offside.Proofs.Scan.Order

/-!
# Erasing faults

The text that a scan has left can be thinned by putting a space in place of every character at which the
rest of the scan reports a fault. Every other lexeme is left as it is, and no line end is touched, so where
the scan is in front of a token, a comment or a line end, the thinned text opens with the same one.

This holds where the scan recovers from all its faults. A misfit is reported in front of a lexeme that is
no fault, and erasing that would be another matter.
-/

namespace Offside

namespace Text

/-- A text that starts at a byte index, with a space in place of each character at one of some indices. -/
def blankOut (indices : List Nat) : Nat → List Char → List Char
  | _, [] => []
  | start, c :: cs => (if start ∈ indices then ' ' else c) :: blankOut indices (start + c.utf8Size) cs

variable {indices : List Nat} {start index : Nat} {text : List Char}

theorem blankOut_append (indices : List Nat) (start : Nat) (a b : List Char) :
    blankOut indices start (a ++ b) =
      blankOut indices start a ++ blankOut indices (start + byteLength a) b := by
  induction a generalizing start with
  | nil => rfl
  | cons c cs ih =>
    rw [List.cons_append, blankOut, blankOut, ih, byteLength_cons, Nat.add_assoc]
    rfl

/-- Indices behind a text do not matter to it. -/
theorem blankOut_eq_self (h : ∀ index ∈ indices, start + byteLength text ≤ index) :
    blankOut indices start text = text := by
  induction text generalizing start with
  | nil => rfl
  | cons c cs ih =>
    have hpositive := c.utf8Size_pos
    have hmem : start ∉ indices := fun hmem => by
      have hbehind := h start hmem
      rw [byteLength_cons] at hbehind
      omega
    rw [blankOut, if_neg hmem, ih fun index hindex => ?_]
    have hbehind := h index hindex
    rw [byteLength_cons] at hbehind
    omega

/-- An index in front of a text does not matter to it. -/
theorem blankOut_cons_of_lt (h : index < start) :
    blankOut (index :: indices) start text = blankOut indices start text := by
  induction text generalizing start with
  | nil => rfl
  | cons c cs ih =>
    have hne : start ≠ index := by omega
    rw [blankOut, blankOut, ih (by omega)]
    simp [hne]

end Text

open Text

namespace ScanState

variable {state next : ScanState} {events : List Event} {text : List Char}

/-- The byte indices of the faults that the rest of a scan reports. -/
def faultIndices (state : ScanState) : List Nat :=
  (Event.errors state.run.1).map fun error => error.position.index

/-- The text that is left, with a space in place of every character that is a fault. -/
def erased (state : ScanState) : List Char :=
  blankOut state.faultIndices state.position.index state.rest

/-- The rest of a scan recovers from all faults that it reports. -/
def Recovers (state : ScanState) : Prop :=
  ∀ error ∈ Event.errors state.run.1, error.isFatal = false

/-- The faults of a scan are those of its first step and those of the rest. -/
theorem errors_run_of_step (hstep : state.step = some (events, next)) :
    Event.errors state.run.1 = Event.errors events ++ Event.errors next.run.1 := by
  rw [run_of_step hstep, Event.errors_append]

/-- A scan that recovers still does after a step. -/
theorem Recovers.of_step (h : Recovers state) (hstep : state.step = some (events, next)) :
    Recovers next := fun error hmem =>
  h error (by rw [errors_run_of_step hstep]; exact List.mem_append_right _ hmem)

/-- The rest of a scan reports faults where it is or behind. -/
theorem le_of_mem_faultIndices {index : Nat} (h : index ∈ state.faultIndices) :
    state.position.index ≤ index := by
  obtain ⟨error, hmem, rfl⟩ := List.mem_map.1 h
  exact ((steps_run state).between.errors error hmem).1

/-- A step that reports no fault leaves the text that it reads. -/
theorem erased_of_step (hstep : state.step = some (events, next)) (hclean : Event.errors events = [])
    (hrest : state.rest = text ++ next.rest)
    (hindex : next.position.index = state.position.index + byteLength text) :
    state.erased = text ++ next.erased := by
  have hindices : state.faultIndices = next.faultIndices := by
    rw [faultIndices, errors_run_of_step hstep, hclean]
    rfl
  rw [erased, hindices, hrest, blankOut_append, ← hindex, blankOut_eq_self fun index hmem => ?_]
  · rfl
  · rw [← hindex]
    exact le_of_mem_faultIndices hmem

/-- A step that reads a lexeme and reports no fault leaves the lexeme. -/
theorem erased_of_past {lexeme : Lexeme} {mode : Mode} (hlexeme : classify state.rest = some lexeme)
    (hstep : state.step = some (events, state.past lexeme.text mode)) (hclean : Event.errors events = []) :
    state.rest = lexeme.text ++ (state.past lexeme.text mode).rest ∧
      state.erased = lexeme.text ++ (state.past lexeme.text mode).erased := by
  have hrest : state.rest = lexeme.text ++ (state.past lexeme.text mode).rest :=
    List.prefix_iff_eq_append.1 (isFront_of_classify hlexeme).2 |>.symm
  exact ⟨hrest, erased_of_step hstep hclean hrest (Position.index_advanceOver _ _)⟩

/-- A step that reads no text leaves the text as it was. -/
theorem erased_of_stay (hstep : state.step = some (events, next)) (hclean : Event.errors events = [])
    (hrest : next.rest = state.rest) (hposition : next.position = state.position) :
    state.erased = next.erased :=
  @erased_of_step state next events [] hstep hclean hrest.symm (by rw [hposition]; rfl)

/-- A step that reports a fault of a lexeme leaves a space for it. -/
theorem erased_of_report {c : Char} {cs : List Char} {fault : Fault} {mode : Mode}
    (hrest : state.rest = c :: cs)
    (hstep : state.step = some ([.failed ⟨fault, state.position⟩], state.past [c] mode)) :
    state.erased = ' ' :: (state.past [c] mode).erased := by
  have hindices : state.faultIndices = state.position.index :: (state.past [c] mode).faultIndices := by
    rw [faultIndices, errors_run_of_step hstep]
    rfl
  have hindex : (state.past [c] mode).position.index = state.position.index + c.utf8Size := by
    simp [past]
  have hbehind : (state.past [c] mode).rest = cs := by
    simp [past, hrest]
  have hlt : state.position.index < state.position.index + c.utf8Size := by
    have hpositive := c.utf8Size_pos
    omega
  rw [erased, hindices, hrest, blankOut, if_pos List.mem_cons_self, blankOut_cons_of_lt hlt, erased, hindex,
    hbehind]

/-- What is left thins to what is left of it when faults are erased. -/
theorem thinsTo_erased (h : Recovers state) : ThinsTo state.rest state.erased := by
  induction state using run.induct with
  | case1 state hstep =>
    have hnone : state.faultIndices = [] := by
      rw [faultIndices, run_of_step_eq_none hstep]
      rfl
    rw [erased, hnone, blankOut_eq_self fun _ hmem => by cases hmem]
    exact .refl _
  | case2 state events next hstep ih =>
    have hnext := ih (h.of_step hstep)
    cases moves_of_step hstep with
    | skipsInMargin hmode hlexeme | skipsInLine hmode hlexeme | endsLine hmode hlexeme
    | yields hmode hlexeme =>
      obtain ⟨hrest, herased⟩ := erased_of_past hlexeme hstep rfl
      rw [herased]
      rw [hrest]
      exact hnext.append_left _
    | opens =>
      rw [erased_of_stay hstep rfl rfl rfl]
      exact hnext
    | settles =>
      rw [erased_of_stay hstep (errors_closing _ _ _) rfl rfl]
      exact hnext
    | @misfits measured lexeme closed kept error hmode hlexeme htrivia hblocks hclosed hkept hnarrow herror =>
      have hfatal := h error (by rw [errors_run_of_step hstep]; simp)
      rw [herror] at hfatal
      cases hfatal
    | @reports depth fault text hmode hlexeme =>
      obtain ⟨c, cs, hrest, rfl, hend⟩ := exists_of_classify_fault hlexeme
      have hbehind : (state.past [c] (.line depth)).rest = cs := by simp [past, hrest]
      rw [erased_of_report hrest hstep, hrest]
      rw [hbehind] at hnext
      exact .blank hend hnext

/-- Reading a lexeme that is no fault reports none. -/
theorem readLine_of_no_fault {lexeme : Lexeme} (h : ∀ fault, lexeme.reading ≠ .fault fault)
    (state : ScanState) (depth : Nat) :
    ∃ events mode, state.readLine depth lexeme = (events, state.past lexeme.text mode) ∧
      Event.errors events = [] := by
  obtain ⟨reading, text⟩ := lexeme
  cases reading with
  | blank | comment => exact ⟨[], _, rfl, rfl⟩
  | lineEnd =>
    by_cases hdepth : depth = 0
    · exact ⟨_, _, by rw [readLine, if_pos hdepth], rfl⟩
    · exact ⟨_, _, by rw [readLine, if_neg hdepth], rfl⟩
  | token kind => exact ⟨_, _, rfl, rfl⟩
  | fault fault => exact absurd rfl (h fault)

/-- A margin is left for the line behind it, or the scan does not recover. -/
theorem Recovers.enterLine {width : Nat} (h : Recovers state)
    (hstep : state.step = some (state.enterLine width)) :
    Event.errors (state.enterLine width).1 = [] ∧ (state.enterLine width).2.mode = .line 0 := by
  cases hshift : shift state.blocks width with
  | opens | settles => simp [ScanState.enterLine, hshift]
  | misfits closed kept =>
    have hmem : ⟨.inconsistentDedent width (levels state.blocks), state.position⟩ ∈
        Event.errors (state.enterLine width).1 := by
      simp [ScanState.enterLine, hshift]
    have hfatal := h _ (by
      rw [errors_run_of_step hstep]
      exact List.mem_append_left _ hmem)
    cases hfatal

/-- Erasing faults leaves a text at the front as it is, and thins what is behind it. -/
def Keeps (state : ScanState) (text : List Char) : Prop :=
  ∃ rest rest', state.rest = text ++ rest ∧ state.erased = text ++ rest' ∧ ThinsTo rest rest'

section Keeps

variable {reading : Reading}

/-- A lexeme that is read without a fault is kept. -/
theorem keeps_of_past {mode : Mode} (h : Recovers state) (hlexeme : classify state.rest = some ⟨reading, text⟩)
    (hstep : state.step = some (events, state.past text mode)) (hclean : Event.errors events = []) :
    state.Keeps text := by
  obtain ⟨hrest, herased⟩ := erased_of_past hlexeme hstep hclean
  exact ⟨_, _, hrest, herased, thinsTo_erased (h.of_step hstep)⟩

/-- Behind a margin, each lexeme but a fault is kept. -/
theorem keeps_of_line {depth : Nat} (h : Recovers state) (hmode : state.mode = .line depth)
    (hlexeme : classify state.rest = some ⟨reading, text⟩) (hfault : ∀ fault, reading ≠ .fault fault) :
    state.Keeps text := by
  obtain ⟨events, mode, hread, hclean⟩ := @readLine_of_no_fault ⟨reading, text⟩ hfault state depth
  have hstep := step_of_line hmode hlexeme
  rw [hread] at hstep
  exact keeps_of_past h hlexeme hstep hclean

/-- Each lexeme but a fault is kept. -/
theorem keeps_of_classify (h : Recovers state) (hmode : state.mode ≠ .halted)
    (hlexeme : classify state.rest = some ⟨reading, text⟩) (hfault : ∀ fault, reading ≠ .fault fault) :
    state.Keeps text := by
  cases hstate : state.mode with
  | halted => exact absurd hstate hmode
  | line depth => exact keeps_of_line h hstate hlexeme hfault
  | margin measured =>
    cases htrivia : reading.isTrivia with
    | true => exact keeps_of_past h hlexeme (step_of_trivia hstate hlexeme htrivia) rfl
    | false =>
      -- the margin is left first, and the lexeme is read behind it
      have hstep := step_of_proper hstate hlexeme htrivia
      obtain ⟨hclean, hline⟩ := h.enterLine hstep
      have hnext : Recovers (state.enterLine (measured.getD 0)).2 := h.of_step hstep
      have hrest := rest_enterLine state (measured.getD 0)
      have hstay : state.erased = (state.enterLine (measured.getD 0)).2.erased :=
        erased_of_stay hstep hclean hrest (position_enterLine state _)
      have hlexeme' : classify (state.enterLine (measured.getD 0)).2.rest = some ⟨reading, text⟩ := by
        rw [hrest, hlexeme]
      obtain ⟨rest, rest', hsplit, herased, hthin⟩ := keeps_of_line hnext hline hlexeme' hfault
      exact ⟨rest, rest', hrest.symm.trans hsplit, hstay.trans herased, hthin⟩

/-- A token, a comment or a line end is read as well when faults are erased. -/
theorem classify_erased (h : Recovers state) (hmode : state.mode ≠ .halted)
    (hlexeme : classify state.rest = some ⟨reading, text⟩) (hblank : reading ≠ .blank)
    (hfault : ∀ fault, reading ≠ .fault fault) : classify state.erased = some ⟨reading, text⟩ := by
  obtain ⟨rest, rest', hrest, herased, hthin⟩ := keeps_of_classify h hmode hlexeme hfault
  rw [hrest] at hlexeme
  rw [herased]
  exact classify_thin hlexeme hblank hfault hthin

/-- The first character that is left is kept unless it is a fault. -/
theorem head?_erased (h : Recovers state) (hmode : state.mode ≠ .halted)
    (hfault : ∀ fault text, classify state.rest ≠ some ⟨.fault fault, text⟩) :
    state.erased.head? = state.rest.head? := by
  cases hlexeme : classify state.rest with
  | none =>
    have hthin := thinsTo_erased h
    rw [classify_eq_none_iff.1 hlexeme] at hthin ⊢
    rw [hthin.eq_nil]
  | some lexeme =>
    obtain ⟨reading, text⟩ := lexeme
    obtain ⟨rest, rest', hrest, herased, -⟩ := keeps_of_classify h hmode hlexeme fun fault heq =>
      hfault fault text (by rw [hlexeme, heq])
    have hne := (isFront_of_classify hlexeme).1
    rw [hrest, herased, List.head?_append_of_ne_nil _ hne, List.head?_append_of_ne_nil _ hne]

end Keeps

end ScanState

end Offside
