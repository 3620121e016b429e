import Mathlib.Data.List.Forall2
import Offside.Proofs.Lexeme.Context
import Offside.Proofs.Scan.Halting

/-!
# Scans of rewritten texts

A text can be rewritten so that a scan goes the same way over it: each lexeme is rewritten on its own and
read as before, and the positions in the one text stand for positions in the other. Each step over the text is
then answered by the same step over the rewritten text, and so is each run.

Some tokens may be lost in the rewritten text. What is said here holds as long as a scan keeps clear of
these. A margin is left where a token or a fault stands, so there it is enough that one still stands.
-/

namespace Offside

open Text

/-- A list is the image of another when each of its members is. -/
theorem map_eq_of_forall₂ {α β : Type} {R : α → β → Prop} {f : α → β} {as : List α} {bs : List β}
    (h : List.Forall₂ R as bs) (himage : ∀ a b, R a b → f a = b) : as.map f = bs := by
  rw [← List.forall₂_eq_eq_eq, List.forall₂_map_left_iff]
  exact h.imp himage

/-- A way to rewrite texts under which lexemes are read as before. -/
structure Rewriting where
  /-- The rewritten text. -/
  text : List Char → List Char
  /-- The texts that can be rewritten. -/
  covers : List Char → Prop
  /-- The tokens that are kept. -/
  keeps : Kind → List Char → Prop
  /-- The positions that stand for each other. -/
  places : Position → Position → Prop
  append : ∀ a b, text (a ++ b) = text a ++ text b
  covers_append : ∀ {a b}, covers (a ++ b) → covers a ∧ covers b
  blanks : ∀ {margin}, (∀ c ∈ margin, isBlank c = true) → text margin = margin
  advance : ∀ {p q piece}, covers piece → places p q →
    places (p.advanceOver piece) (q.advanceOver (text piece))
  /-- A token or a fault is left where one stands. -/
  proper : ∀ {window lexeme}, covers window → classify window = some lexeme →
    lexeme.reading.isTrivia = false → ∃ other, classify (text window) = some other ∧ other.reading.isTrivia = false
  /-- A lexeme is read as before, if it is no token that is lost. -/
  reads : ∀ {window lexeme}, covers window → classify window = some lexeme →
    (∀ kind, lexeme.reading = .token kind → keeps kind lexeme.text) →
      classify (text window) = some ⟨lexeme.reading, text lexeme.text⟩

namespace Rewriting

variable (w : Rewriting)

/-- A token, and the token of the rewritten text that stands for it. -/
structure OfToken (a b : Token) : Prop where
  kind : b.kind = a.kind
  text : b.text = w.text a.text
  start : w.places a.start b.start
  stop : w.places a.stop b.stop

/-- A fault, and the fault of the rewritten text that stands for it. -/
structure OfFault (a b : LocatedFault) : Prop where
  fault : b.fault = a.fault
  position : w.places a.position b.position

/-- What happens in a scan, and what happens in the scan of the rewritten text. -/
structure OfEvents (events own : List Event) : Prop where
  tokens : List.Forall₂ w.OfToken (Event.tokens events) (Event.tokens own)
  errors : List.Forall₂ w.OfFault (Event.errors events) (Event.errors own)

/-- A state of a scan, and the state that the scan of the rewritten text is in. -/
structure OfState (state own : ScanState) : Prop where
  covers : w.covers state.rest
  rest : own.rest = w.text state.rest
  position : w.places state.position own.position
  blocks : own.blocks = state.blocks
  mode : own.mode = state.mode

variable {w} {state own next : ScanState} {events later : List Event} {lexeme : Lexeme}

/-- Nothing is left of the empty text. -/
theorem text_nil : w.text [] = [] := by
  have htwice := w.append [] []
  rw [List.append_nil] at htwice
  exact List.append_right_eq_self.1 htwice.symm

/-- Tokens that span a piece and its rewriting stand for each other. -/
theorem ofToken_spanning {p q : Position} {piece : List Char} (hcovers : w.covers piece) (h : w.places p q)
    (kind : Kind) : w.OfToken (.spanning kind piece p) (.spanning kind (w.text piece) q) :=
  ⟨rfl, rfl, h, w.advance hcovers h⟩

/-- Tokens without a text stand for each other. -/
theorem ofToken_synthetic {p q : Position} (h : w.places p q) (kind : Kind) :
    w.OfToken (.synthetic kind p) (.synthetic kind q) :=
  ⟨rfl, text_nil.symm, h, h⟩

/-- Closed blocks have tokens that stand for each other. -/
theorem ofToken_dedents {p q : Position} (h : w.places p q) (closed : List Nat) :
    List.Forall₂ w.OfToken (closed.map fun _ => .synthetic .dedent p)
      (closed.map fun _ => .synthetic .dedent q) := by
  rw [List.forall₂_map_left_iff, List.forall₂_map_right_iff, List.forall₂_same]
  exact fun _ _ => ofToken_synthetic h _

/-- The width of a margin is the same. -/
theorem marginBehind_text {window : List Char} (hlexeme : classify window = some lexeme)
    (measured : Option Nat) :
    ScanState.marginBehind measured ⟨lexeme.reading, w.text lexeme.text⟩ =
      ScanState.marginBehind measured lexeme := by
  obtain ⟨reading, text⟩ := lexeme
  cases reading with
  | blank =>
    have hsplit := List.prefix_iff_eq_append.1 (isFront_of_classify hlexeme).2
    rw [← hsplit] at hlexeme
    rw [w.blanks (blanks_of_classify hlexeme).1]
  | _ => rfl

theorem OfEvents.nil : w.OfEvents [] [] :=
  ⟨.nil, .nil⟩

/-- What happens later stands behind what happened before, in both scans. -/
theorem OfEvents.append {answer answer' : List Event} (h : w.OfEvents events answer)
    (hlater : w.OfEvents later answer') : w.OfEvents (events ++ later) (answer ++ answer') where
  tokens := by
    rw [Event.tokens_append, Event.tokens_append]
    exact List.rel_append h.tokens hlater.tokens
  errors := by
    rw [Event.errors_append, Event.errors_append]
    exact List.rel_append h.errors hlater.errors

/-- A token alone. -/
theorem OfEvents.token {a b : Token} (h : w.OfToken a b) : w.OfEvents [.emitted a] [.emitted b] :=
  ⟨.cons h .nil, .nil⟩

namespace OfState

/-- The text of a lexeme can be rewritten, and so can what is left behind it. -/
theorem covers_past (h : w.OfState state own) (hlexeme : classify state.rest = some lexeme) (mode : Mode) :
    state.rest = lexeme.text ++ (state.past lexeme.text mode).rest ∧ w.covers lexeme.text ∧
      w.covers (state.past lexeme.text mode).rest := by
  have hrest : state.rest = lexeme.text ++ (state.past lexeme.text mode).rest :=
    List.prefix_iff_eq_append.1 (isFront_of_classify hlexeme).2 |>.symm
  have hcovers := h.covers
  rw [hrest] at hcovers
  exact ⟨hrest, w.covers_append hcovers⟩

/-- Both scans go on behind a lexeme. -/
theorem past (h : w.OfState state own) (hlexeme : classify state.rest = some lexeme) (mode : Mode) :
    w.OfState (state.past lexeme.text mode) (own.past (w.text lexeme.text) mode) := by
  obtain ⟨hrest, hcovers, hcovers'⟩ := h.covers_past hlexeme mode
  refine ⟨hcovers', ?_, w.advance hcovers h.position, h.blocks, rfl⟩
  rw [ScanState.past, h.rest]
  nth_rewrite 1 [hrest]
  rw [w.append]
  exact List.drop_left

/-- A margin is left alike. -/
theorem enterLine (h : w.OfState state own) (width : Nat) :
    w.OfEvents (state.enterLine width).1 (own.enterLine width).1 ∧
      w.OfState (state.enterLine width).2 (own.enterLine width).2 := by
  unfold ScanState.enterLine
  rw [h.blocks]
  cases shift state.blocks width with
  | opens =>
    exact ⟨⟨.cons (ofToken_synthetic h.position _) .nil, .nil⟩, h.covers, h.rest, h.position, rfl, rfl⟩
  | settles closed kept =>
    refine ⟨⟨?_, ?_⟩, h.covers, h.rest, h.position, rfl, rfl⟩
    · rw [ScanState.tokens_closing, ScanState.tokens_closing]
      exact ofToken_dedents h.position closed
    · rw [ScanState.errors_closing, ScanState.errors_closing]
      exact .nil
  | misfits closed kept =>
    refine ⟨⟨?_, ?_⟩, h.covers, h.rest, h.position, rfl, rfl⟩
    · simpa using ofToken_dedents h.position closed
    · simpa using (⟨rfl, h.position⟩ : w.OfFault ⟨_, state.position⟩ ⟨_, own.position⟩)

/-- A lexeme behind the margin is read alike. -/
theorem readLine (h : w.OfState state own) (hlexeme : classify state.rest = some lexeme) (depth : Nat) :
    w.OfEvents (state.readLine depth lexeme).1 (own.readLine depth ⟨lexeme.reading, w.text lexeme.text⟩).1 ∧
      w.OfState (state.readLine depth lexeme).2
        (own.readLine depth ⟨lexeme.reading, w.text lexeme.text⟩).2 := by
  obtain ⟨-, hcovers, -⟩ := h.covers_past hlexeme (.line depth)
  have hpast := h.past hlexeme
  obtain ⟨reading, text⟩ := lexeme
  cases reading with
  | blank | comment => exact ⟨.nil, hpast _⟩
  | lineEnd =>
    by_cases hdepth : depth = 0
    · simp only [ScanState.readLine, if_pos hdepth]
      exact ⟨.token (ofToken_spanning hcovers h.position _), hpast _⟩
    · simp only [ScanState.readLine, if_neg hdepth]
      exact ⟨.nil, hpast _⟩
  | token kind => exact ⟨.token (ofToken_spanning hcovers h.position _), hpast _⟩
  | fault fault => exact ⟨⟨.nil, .cons ⟨rfl, h.position⟩ .nil⟩, hpast _⟩

/-- Each step is answered by a step, if it yields no token that is lost. -/
theorem step (h : w.OfState state own) (hstep : state.step = some (events, next))
    (hkeeps : ∀ token ∈ Event.tokens events, w.keeps token.kind token.text) :
    ∃ answer behind, own.step = some (answer, behind) ∧ w.OfEvents events answer ∧ w.OfState next behind := by
  obtain ⟨lexeme, hlexeme⟩ := ScanState.exists_classify_of_step hstep
  cases hmode : state.mode with
  | halted =>
    rw [(ScanState.step_eq_none_iff state).2 (.inr hmode)] at hstep
    cases hstep
  | line depth =>
    rw [ScanState.step_of_line hmode hlexeme] at hstep
    have hread : classify own.rest = some ⟨lexeme.reading, w.text lexeme.text⟩ := by
      rw [h.rest]
      refine w.reads h.covers hlexeme fun kind hkind => hkeeps (.spanning kind lexeme.text state.position) ?_
      have hevents : (state.readLine depth lexeme).1 = events := congrArg Prod.fst (Option.some.inj hstep)
      rw [← hevents, ScanState.readLine, hkind]
      exact List.mem_singleton_self _
    have hanswer := h.readLine hlexeme depth
    rw [Option.some.inj hstep] at hanswer
    exact ⟨_, _, ScanState.step_of_line (h.mode.trans hmode) hread, hanswer⟩
  | margin measured =>
    cases htrivia : lexeme.reading.isTrivia with
    | true =>
      rw [ScanState.step_of_trivia hmode hlexeme htrivia] at hstep
      cases hstep
      have hread : classify own.rest = some ⟨lexeme.reading, w.text lexeme.text⟩ := by
        rw [h.rest]
        refine w.reads h.covers hlexeme fun kind hkind => ?_
        rw [hkind] at htrivia
        cases htrivia
      refine ⟨_, _, ScanState.step_of_trivia (h.mode.trans hmode) hread htrivia, .nil, ?_⟩
      rw [marginBehind_text hlexeme]
      exact h.past hlexeme _
    | false =>
      rw [ScanState.step_of_proper hmode hlexeme htrivia] at hstep
      obtain ⟨other, hother, htrivia'⟩ := w.proper h.covers hlexeme htrivia
      rw [← h.rest] at hother
      have hanswer := h.enterLine (measured.getD 0)
      rw [Option.some.inj hstep] at hanswer
      exact ⟨_, _, ScanState.step_of_proper (h.mode.trans hmode) hother htrivia', hanswer⟩

/-- Each run is answered by a run, if it yields no token that is lost. -/
theorem run (h : w.OfState state own)
    (hkeeps : ∀ token ∈ Event.tokens state.run.1, w.keeps token.kind token.text) :
    w.OfEvents state.run.1 own.run.1 ∧ w.OfState state.run.2 own.run.2 := by
  induction state using ScanState.run.induct generalizing own with
  | case1 state hstep =>
    have hend : own.step = none := by
      rw [ScanState.step_eq_none_iff] at hstep ⊢
      refine hstep.imp (fun hrest => ?_) h.mode.trans
      rw [h.rest, hrest, text_nil]
    rw [ScanState.run_of_step_eq_none hstep, ScanState.run_of_step_eq_none hend]
    exact ⟨.nil, h⟩
  | case2 state events next hstep ih =>
    rw [ScanState.run_of_step hstep, Event.tokens_append] at hkeeps
    obtain ⟨answer, behind, hanswer, hevents, hbehind⟩ :=
      h.step hstep fun token htoken => hkeeps token (List.mem_append_left _ htoken)
    obtain ⟨hlater, hlast⟩ := ih hbehind fun token htoken => hkeeps token (List.mem_append_right _ htoken)
    rw [ScanState.run_of_step hstep, ScanState.run_of_step hanswer]
    exact ⟨hevents.append hlater, hlast⟩

/-- What ends two scans stands for each other. -/
theorem finish (h : w.OfState state own) : w.OfEvents state.finish own.finish where
  tokens := by
    rw [ScanState.tokens_finish, ScanState.tokens_finish, h.blocks]
    exact List.rel_append (ofToken_dedents h.position _) (.cons (ofToken_synthetic h.position _) .nil)
  errors := by
    rw [ScanState.errors_finish, ScanState.errors_finish]
    exact .nil

end OfState

/-- The tokens and faults of a rewritten text stand for those of the text, if no token is lost. -/
theorem ofEvents_scan {source : List Char} (hcovers : w.covers source) (hstart : w.places .start .start)
    (hkeeps : ∀ token ∈ tokensOf source, w.keeps token.kind token.text) :
    List.Forall₂ w.OfToken (tokensOf source) (tokensOf (w.text source)) ∧
      List.Forall₂ w.OfFault (faultsOf source) (faultsOf (w.text source)) := by
  have hinitial : w.OfState (.initial source) (.initial (w.text source)) := ⟨hcovers, rfl, hstart, rfl, rfl⟩
  rw [tokensOf_eq_run] at hkeeps
  obtain ⟨hevents, hlast⟩ := hinitial.run fun token htoken => hkeeps token (List.mem_append_left _ htoken)
  rw [tokensOf_eq_run, tokensOf_eq_run, faultsOf_eq_run, faultsOf_eq_run]
  exact ⟨List.rel_append hevents.tokens hlast.finish.tokens, hevents.errors⟩

end Rewriting

end Offside
