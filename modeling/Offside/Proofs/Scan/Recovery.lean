import Mathlib.Data.List.Forall2
import Offside.Proofs.Position
import Offside.Proofs.Scan.Erasure

/-!
# Recovery from faults

A scan goes on behind a fault as if a space stood in its place. So where every fault stands behind a token
on its logical line, the text with these spaces is analysed without a fault and gives the same tokens, up to
the bytes that they cover.

Two scans are compared, of the text and of the text with its faults erased. The second answers each step of
the first by its own step, or by none: it reads the space of a fault together with the blanks behind it, and
such a run of blanks can as well be read one character after another. In a margin that would not do, since
there a run of blanks gives a width, and this is where the faults in front of a line are excluded.
-/

namespace Offside

open Text

/-! ### Tokens that read the same -/

namespace Token

variable {p q : Position}

/-- Tokens of one kind and text read the same when they start beside each other. -/
theorem readsAs_spanning (h : p.Beside q) (kind : Kind) (text : List Char) :
    (spanning kind text q).readsAs (spanning kind text p) = true := by
  simp [readsAs, spanning, h.line, h.column]

/-- Tokens of one kind and no text read the same when they stand beside each other. -/
theorem readsAs_synthetic (h : p.Beside q) (kind : Kind) :
    (synthetic kind q).readsAs (synthetic kind p) = true := by
  simp [readsAs, synthetic, h.line, h.column]

end Token

/-- Tokens that read the same as others, one by one. -/
def ReadAs (own tokens : List Token) : Prop :=
  List.Forall₂ (fun a b => a.readsAs b = true) own tokens

/-- Tokens of closed blocks read the same when they stand beside each other. -/
theorem readAs_dedents {p q : Position} (h : p.Beside q) (closed : List Nat) :
    ReadAs (closed.map fun _ => .synthetic .dedent q) (closed.map fun _ => .synthetic .dedent p) := by
  rw [ReadAs, List.forall₂_map_left_iff, List.forall₂_map_right_iff, List.forall₂_same]
  exact fun _ _ => Token.readsAs_synthetic h _

namespace ScanState

variable {state next twin : ScanState} {events own : List Event} {text : List Char}

/-! ### Blanks one after another -/

/-- Reading two texts one after another is reading both at once. -/
theorem past_past {a b : List Char} (hwhole : ¬ CutsPair a b) (state : ScanState) (mode mode' : Mode) :
    (state.past a mode).past b mode' = state.past (a ++ b) mode' := by
  simp [past, Position.advanceOver_append _ hwhole]

/-- Some of the blanks behind a margin can be read before the others. -/
theorem run_past_blanks {depth : Nat} {rest : List Char} (hmode : state.mode = .line depth)
    (hrest : state.rest = text ++ rest) (hne : text ≠ []) (hblank : ∀ c ∈ text, isBlank c = true) :
    (state.past text (.line depth)).run = state.run := by
  have hrest' : (state.past text (.line depth)).rest = rest := by
    simp [past, hrest]
  have hsplit := (List.takeWhile_append_dropWhile (p := isBlank) (l := rest)).symm
  have hstop := head?_dropWhile_eq_false isBlank rest
  have hmore : ∀ c ∈ rest.takeWhile isBlank, isBlank c = true := fun _ => List.mem_takeWhile_imp
  have hall : classify state.rest = some ⟨.blank, text ++ rest.takeWhile isBlank⟩ := by
    rw [hrest]
    nth_rewrite 1 [hsplit]
    rw [← List.append_assoc]
    refine classify_blanks (by simp [hne]) (fun c hc => ?_) hstop
    exact (List.mem_append.1 hc).elim (hblank c) (hmore c)
  have hstep : state.step = some ([], state.past (text ++ rest.takeWhile isBlank) (.line depth)) :=
    step_of_line hmode hall
  rw [run_of_step hstep]
  by_cases hlast : rest.takeWhile isBlank = []
  · rw [hlast, List.append_nil]
    rfl
  · have hbehind : classify (state.past text (.line depth)).rest = some ⟨.blank, rest.takeWhile isBlank⟩ := by
      rw [hrest']
      nth_rewrite 1 [hsplit]
      exact classify_blanks hlast hmore hstop
    have hwhole := Lexeme.not_cutsPair_of_isBlank hmore text
    have hstep' : (state.past text (.line depth)).step =
        some ([], (state.past text (.line depth)).past (rest.takeWhile isBlank) (.line depth)) :=
      step_of_line rfl hbehind
    rw [run_of_step hstep', past_past hwhole]

/-! ### Two scans -/

/-- A scan that goes on as another, with what the other reports as faults erased. -/
structure Twin (state twin : ScanState) : Prop where
  rest : twin.rest = state.erased
  beside : state.position.Beside twin.position
  blocks : twin.blocks = state.blocks
  mode : twin.mode = state.mode

/-- A twin is in front of the same token, comment or line end. -/
theorem Twin.classify_rest {reading : Reading} (h : Twin state twin) (hrecovers : Recovers state)
    (hmode : state.mode ≠ .halted) (hlexeme : classify state.rest = some ⟨reading, text⟩)
    (hblank : reading ≠ .blank) (hfault : ∀ fault, reading ≠ .fault fault) :
    classify twin.rest = some ⟨reading, text⟩ := by
  rw [h.rest]
  exact classify_erased hrecovers hmode hlexeme hblank hfault

/-- Reading what is left of a lexeme goes on as reading the lexeme. -/
theorem Twin.past {text' : List Char} {mode : Mode} (h : Twin state twin)
    (herased : state.erased = text' ++ (state.past text mode).erased)
    (hbeside : (state.position.advanceOver text).Beside (twin.position.advanceOver text')) :
    Twin (state.past text mode) (twin.past text' mode) where
  rest := by
    rw [ScanState.past, h.rest, herased]
    exact List.drop_left
  beside := hbeside
  blocks := h.blocks
  mode := rfl

/-- A twin answers what happens in a step: it comes to a twin of the next state, with the same tokens and
without a fault. -/
def Answers (twin : ScanState) (events : List Event) (next : ScanState) : Prop :=
  ∃ own behind, Twin next behind ∧ twin.run = (own ++ behind.run.1, behind.run.2) ∧
    Event.errors own = [] ∧ ReadAs (Event.tokens own) (Event.tokens events)

section Answers

variable {reading : Reading} {mode : Mode}

/-- A lexeme that both read is answered by reading it. -/
theorem answers_of_past (h : Twin state twin) (hlexeme : classify state.rest = some ⟨reading, text⟩)
    (hstep : state.step = some (events, state.past text mode)) (hclean : Event.errors events = [])
    (htwin : twin.step = some (own, twin.past text mode)) (hown : Event.errors own = [])
    (htokens : ReadAs (Event.tokens own) (Event.tokens events)) :
    Answers twin events (state.past text mode) :=
  ⟨own, twin.past text mode, h.past (erased_of_past hlexeme hstep hclean).2 (h.beside.advanceOver text),
    run_of_step htwin, hown, htokens⟩

/-- What is read without a token, as blanks behind a margin, is answered by reading these blanks alone. -/
theorem answers_of_blanks {depth : Nat} {blanks : List Char} (h : Twin state twin)
    (hmode : state.mode = .line depth) (hne : blanks ≠ []) (hblank : ∀ c ∈ blanks, isBlank c = true)
    (herased : state.erased = blanks ++ (state.past text (.line depth)).erased)
    (hbeside : (state.position.advanceOver text).Beside (twin.position.advanceOver blanks))
    (htokens : Event.tokens events = []) : Answers twin events (state.past text (.line depth)) := by
  have hrun := run_past_blanks (h.mode.trans hmode) (h.rest.trans herased) hne hblank
  refine ⟨[], twin.past blanks (.line depth), h.past herased hbeside, ?_, rfl, ?_⟩
  · rw [hrun]
    rfl
  · rw [htokens]
    exact .nil

/-- Behind a margin, each lexeme is answered. -/
theorem answers_readLine {depth : Nat} {lexeme : Lexeme} (h : Twin state twin) (hrecovers : Recovers state)
    (hmode : state.mode = .line depth) (hlexeme : classify state.rest = some lexeme) :
    Answers twin (state.readLine depth lexeme).1 (state.readLine depth lexeme).2 := by
  obtain ⟨reading, text⟩ := lexeme
  have hstep := step_of_line hmode hlexeme
  have htwin : reading ≠ .blank → (∀ fault, reading ≠ .fault fault) →
      twin.step = some (twin.readLine depth ⟨reading, text⟩) := fun hblank hfault =>
    step_of_line (h.mode.trans hmode) (h.classify_rest hrecovers (by simp [hmode]) hlexeme hblank hfault)
  cases reading with
  | blank =>
    have hread : state.step = some ([], state.past text (.line depth)) := hstep
    obtain ⟨hrest, herased⟩ := erased_of_past hlexeme hread rfl
    rw [hrest] at hlexeme
    exact answers_of_blanks h hmode (isFront_of_classify hlexeme).1 (blanks_of_classify hlexeme).1 herased
      (h.beside.advanceOver text) rfl
  | comment =>
    have hown := htwin (by simp) (by simp)
    exact answers_of_past h hlexeme hstep rfl hown rfl .nil
  | lineEnd =>
    have hown := htwin (by simp) (by simp)
    by_cases hdepth : depth = 0
    · simp only [readLine, if_pos hdepth] at hstep hown ⊢
      exact answers_of_past h hlexeme hstep rfl hown rfl
        (.cons (Token.readsAs_spanning h.beside _ _) .nil)
    · simp only [readLine, if_neg hdepth] at hstep hown ⊢
      exact answers_of_past h hlexeme hstep rfl hown rfl .nil
  | token kind =>
    have hown := htwin (by simp) (by simp)
    exact answers_of_past h hlexeme hstep rfl hown rfl
      (.cons (Token.readsAs_spanning h.beside _ _) .nil)
  | fault fault =>
    -- the twin reads a space here, alone though more blanks may stand behind it
    obtain ⟨c, cs, hrest, rfl, hend⟩ := exists_of_classify_fault hlexeme
    have herased : state.erased = [' '] ++ (state.past [c] (.line depth)).erased :=
      erased_of_report hrest hstep
    have hspace : ∀ d ∈ [' '], isBlank d = true := fun d hd => by
      rw [List.mem_singleton.1 hd]
      rfl
    exact answers_of_blanks h hmode (List.cons_ne_nil _ _) hspace herased (h.beside.advance_space hend) rfl

/-- Trivia in a margin are answered, where no fault stands behind them. -/
theorem answers_of_trivia {measured : Option Nat} {lexeme : Lexeme} (h : Twin state twin)
    (hrecovers : Recovers state) (hmode : state.mode = .margin measured)
    (hlexeme : classify state.rest = some lexeme) (htrivia : lexeme.reading.isTrivia = true)
    (hlead : ∀ fault text, classify (state.past lexeme.text (marginBehind measured lexeme)).rest ≠
      some ⟨.fault fault, text⟩) :
    Answers twin [] (state.past lexeme.text (marginBehind measured lexeme)) := by
  have hstep := step_of_trivia hmode hlexeme htrivia
  have hnext := hrecovers.of_step hstep
  obtain ⟨hrest, herased⟩ := erased_of_past hlexeme hstep rfl
  have htwin : classify twin.rest = some lexeme := by
    obtain ⟨reading, text⟩ := lexeme
    cases reading with
    | blank =>
      -- what stands behind the blanks is no fault, so no more blanks are found when faults are erased
      obtain ⟨measured', hmargin⟩ := exists_marginBehind measured ⟨.blank, text⟩
      rw [hmargin] at herased hnext hlead hrest
      have hne := (isFront_of_classify hlexeme).1
      rw [hrest] at hlexeme
      obtain ⟨hblank, hstop⟩ := blanks_of_classify hlexeme
      rw [h.rest, herased]
      refine classify_blanks hne hblank ?_
      rw [head?_erased hnext (by simp [past]) hlead]
      exact hstop
    | comment | lineEnd => exact h.classify_rest hrecovers (by simp [hmode]) hlexeme (by simp) (by simp)
    | token | fault => cases htrivia
  exact answers_of_past h hlexeme hstep rfl (step_of_trivia (h.mode.trans hmode) htwin htrivia) rfl .nil

/-- Leaving a margin depends on the open blocks only, but for where it stands. -/
theorem enterLine_beside {width : Nat} (hblocks : twin.blocks = state.blocks)
    (hbeside : state.position.Beside twin.position)
    (hclean : Event.errors (state.enterLine width).1 = []) :
    Event.errors (twin.enterLine width).1 = [] ∧
      ReadAs (Event.tokens (twin.enterLine width).1) (Event.tokens (state.enterLine width).1) ∧
      (twin.enterLine width).2.blocks = (state.enterLine width).2.blocks ∧
      (twin.enterLine width).2.mode = (state.enterLine width).2.mode := by
  unfold enterLine at hclean ⊢
  rw [hblocks]
  cases hshift : shift state.blocks width with
  | opens => exact ⟨rfl, .cons (Token.readsAs_synthetic hbeside _) .nil, rfl, rfl⟩
  | settles closed kept =>
    refine ⟨errors_closing _ _ _, ?_, rfl, rfl⟩
    rw [tokens_closing, tokens_closing]
    exact readAs_dedents hbeside closed
  | misfits closed kept =>
    rw [hshift] at hclean
    simp at hclean

/-- Leaving a margin in front of a token is answered. -/
theorem answers_enterLine {measured : Option Nat} {kind : Kind} (h : Twin state twin)
    (hrecovers : Recovers state) (hmode : state.mode = .margin measured)
    (hlexeme : classify state.rest = some ⟨.token kind, text⟩) :
    Answers twin (state.enterLine (measured.getD 0)).1 (state.enterLine (measured.getD 0)).2 := by
  have hstep := step_of_proper hmode hlexeme rfl
  obtain ⟨hclean, -⟩ := hrecovers.enterLine hstep
  have hlexeme' := h.classify_rest hrecovers (by simp [hmode]) hlexeme (by simp) (by simp)
  have htwin := step_of_proper (h.mode.trans hmode) hlexeme' rfl
  have hstay : state.erased = (state.enterLine (measured.getD 0)).2.erased :=
    erased_of_stay hstep hclean (rest_enterLine state _) (position_enterLine state _)
  obtain ⟨hown, htokens, hblocks, hmode'⟩ := enterLine_beside h.blocks h.beside hclean
  refine ⟨(twin.enterLine (measured.getD 0)).1, (twin.enterLine (measured.getD 0)).2, ?_, run_of_step htwin,
    hown, htokens⟩
  constructor
  · rw [rest_enterLine, h.rest, hstay]
  · rw [position_enterLine, position_enterLine]
    exact h.beside
  · exact hblocks
  · exact hmode'

end Answers

/-- In a margin, the scan is never in front of a fault. -/
def LeadsWithTokens (state : ScanState) : Prop :=
  ∀ events next measured, Steps state events next → next.mode = .margin measured →
    ∀ fault text, classify next.rest ≠ some ⟨.fault fault, text⟩

/-- A scan that leads its lines with tokens still does after a step. -/
theorem LeadsWithTokens.of_step (h : LeadsWithTokens state) (hstep : state.step = some (events, next)) :
    LeadsWithTokens next := fun _ later measured hsteps hmode =>
  h _ later measured ((Steps.single hstep).trans hsteps) hmode

/-- A twin answers every step. -/
theorem answers_of_step (h : Twin state twin) (hrecovers : Recovers state) (hlead : LeadsWithTokens state)
    (hstep : state.step = some (events, next)) : Answers twin events next := by
  obtain ⟨lexeme, hlexeme⟩ := exists_classify_of_step hstep
  cases hmode : state.mode with
  | halted =>
    rw [(step_eq_none_iff state).2 (.inr hmode)] at hstep
    cases hstep
  | line depth =>
    have hanswers := answers_readLine h hrecovers hmode hlexeme
    rw [step_of_line hmode hlexeme] at hstep
    rwa [Option.some.inj hstep] at hanswers
  | margin measured =>
    cases htrivia : lexeme.reading.isTrivia with
    | true =>
      have hnext := step_of_trivia hmode hlexeme htrivia
      obtain ⟨measured', hmargin⟩ := exists_marginBehind measured lexeme
      have hanswers := answers_of_trivia h hrecovers hmode hlexeme htrivia
        (hlead _ _ measured' (.single hnext) hmargin)
      rw [hnext] at hstep
      cases hstep
      exact hanswers
    | false =>
      obtain ⟨reading, text⟩ := lexeme
      cases reading with
      | blank | comment | lineEnd => cases htrivia
      | fault fault => exact absurd hlexeme (hlead _ _ measured .refl hmode fault text)
      | token kind =>
        have hanswers := answers_enterLine h hrecovers hmode hlexeme
        rw [step_of_proper hmode hlexeme htrivia] at hstep
        rwa [Option.some.inj hstep] at hanswers

/-- The run of a twin has the same tokens and no fault, and ends as the other does. -/
structure Mirrors (run own : List Event × ScanState) : Prop where
  clean : Event.errors own.1 = []
  tokens : ReadAs (Event.tokens own.1) (Event.tokens run.1)
  beside : run.2.position.Beside own.2.position
  blocks : own.2.blocks = run.2.blocks

/-- A twin runs as the scan does that it is a twin of. -/
theorem mirrors_run (h : Twin state twin) (hrecovers : Recovers state) (hlead : LeadsWithTokens state) :
    Mirrors state.run twin.run := by
  induction state using run.induct generalizing twin with
  | case1 state hstep =>
    have hend : twin.step = none := by
      rw [step_eq_none_iff] at hstep ⊢
      refine hstep.imp (fun hrest => ?_) h.mode.trans
      have hthin := thinsTo_erased hrecovers
      rw [hrest] at hthin
      rw [h.rest, hthin.eq_nil]
    rw [run_of_step_eq_none hstep, run_of_step_eq_none hend]
    exact ⟨rfl, .nil, h.beside, h.blocks⟩
  | case2 state events next hstep ih =>
    obtain ⟨own, behind, hbehind, hrun, hclean, htokens⟩ := answers_of_step h hrecovers hlead hstep
    have hlater := ih hbehind (hrecovers.of_step hstep) (hlead.of_step hstep)
    rw [run_of_step hstep, hrun]
    refine ⟨?_, ?_, hlater.beside, hlater.blocks⟩
    · rw [Event.errors_append, hclean, hlater.clean]
      rfl
    · rw [Event.tokens_append, Event.tokens_append]
      exact List.rel_append htokens hlater.tokens

/-- What ends two scans reads the same when they end beside each other with the same open blocks. -/
theorem readAs_finish (hbeside : state.position.Beside twin.position) (hblocks : twin.blocks = state.blocks) :
    ReadAs (Event.tokens twin.finish) (Event.tokens state.finish) := by
  rw [tokens_finish, tokens_finish, hblocks]
  exact List.rel_append (readAs_dedents hbeside _) (.cons (Token.readsAs_synthetic hbeside _) .nil)

end ScanState

/-! ### Texts with their faults erased -/

/-- The text with a space in place of the character at each fault. -/
def eraseFaults (source : List Char) : List Char :=
  blankOut ((faultsOf source).map fun error => error.position.index) 0 source

/-- A fault follows a token on its logical line when some token that is no layout stops in front of it, and
no line end stands between the two. -/
def LocatedFault.Follows (error : LocatedFault) (tokens : List Token) : Prop :=
  ∃ token ∈ tokens, token.kind.isLayout = false ∧ token.stop.index ≤ error.position.index ∧
    ∀ newline ∈ tokens, newline.kind = .newline →
      ¬ (token.stop.index ≤ newline.start.index ∧ newline.stop.index ≤ error.position.index)

instance (error : LocatedFault) (tokens : List Token) : Decidable (error.Follows tokens) :=
  inferInstanceAs (Decidable (∃ token ∈ tokens, _ ∧ _ ∧ ∀ newline ∈ tokens, _ → ¬ _))

namespace ScanState

variable {source : List Char} {state : ScanState} {events : List Event}

/-- Where each fault follows a token on its logical line, no margin stands in front of a fault. -/
theorem leadsWithTokens_initial (hrecovers : Recovers (initial source))
    (hfollows : ∀ error ∈ faultsOf source, error.Follows (tokensOf source)) :
    LeadsWithTokens (initial source) := by
  intro events state measured hsteps hmode fault text hlexeme
  have hrun := hsteps.run_eq
  have hrecovers' : Recovers state := fun error hmem => hrecovers error (by
    rw [hrun, Event.errors_append]
    exact List.mem_append_right _ hmem)
  have hmem : ⟨fault, state.position⟩ ∈ faultsOf source := by
    have hstep := step_of_proper hmode hlexeme rfl
    obtain ⟨-, hline⟩ := hrecovers'.enterLine hstep
    have hrest := rest_enterLine state (measured.getD 0)
    have hposition := position_enterLine state (measured.getD 0)
    have hreport := step_of_line hline (by rw [hrest]; exact hlexeme)
    rw [faultsOf_eq_run, ((hsteps.tail hstep).tail hreport).run_eq]
    simp [hposition]
  obtain ⟨token, htoken, hproper, hstop, hopen⟩ := hfollows _ hmem
  rw [tokensOf_eq_run, hrun, Event.tokens_append, List.append_assoc] at htoken hopen
  rcases List.mem_append.1 htoken with hearlier | hlater
  · obtain ⟨newline, hnewline, hkind, hbehind, hbefore⟩ :=
      exists_newline_of_margin hsteps hmode hearlier hproper
    exact hopen newline (List.mem_append_left _ hnewline) hkind ⟨hbehind, hbefore⟩
  rcases List.mem_append.1 hlater with hlater | hend
  · obtain ⟨hstart, -, -, hpositive⟩ := (steps_run state).between.tokens token hlater
    have hlt := hpositive hproper
    simp only at hstop
    omega
  · obtain ⟨kind, hkind, rfl⟩ := exists_synthetic_of_mem_finish hend
    cases kind <;> cases hkind <;> cases hproper

/-- The scan of a text with its faults erased is a twin of the scan of the text. -/
theorem twin_eraseFaults (source : List Char) : Twin (initial source) (initial (eraseFaults source)) where
  rest := by
    change eraseFaults source = (initial source).erased
    rw [eraseFaults, faultsOf_eq_run]
    rfl
  beside := ⟨rfl, rfl⟩
  blocks := rfl
  mode := rfl

end ScanState

/-- Where a scan recovers from all faults and each follows a token on its logical line, the text with a space
in place of each fault is analysed without a fault, and its tokens read as those of the text. -/
theorem analyze_eraseFaults {source : List Char} (hrecovers : ∀ error ∈ faultsOf source, error.isFatal = false)
    (hfollows : ∀ error ∈ faultsOf source, error.Follows (tokensOf source)) :
    ∃ tokens, analyze (eraseFaults source) = .ok tokens ∧ ReadAs tokens (tokensOf source) := by
  rw [faultsOf_eq_run] at hrecovers
  have hmirrors := ScanState.mirrors_run (ScanState.twin_eraseFaults source) hrecovers
    (ScanState.leadsWithTokens_initial hrecovers hfollows)
  refine ⟨_, analyze_eq_ok_iff.2 ⟨?_, rfl⟩, ?_⟩
  · rw [faultsOf_eq_run, hmirrors.clean]
  · rw [tokensOf_eq_run, tokensOf_eq_run]
    exact List.rel_append hmirrors.tokens (ScanState.readAs_finish hmirrors.beside hmirrors.blocks)

/-- A quote inside an open string, both unclosed, and behind them a backslash and a character of two bytes. -/
theorem analyze_eraseFaults_of_nested_quotes :
    ∃ tokens, analyze "a    b  \n  c  ".toList = .ok tokens ∧
      ReadAs tokens (tokensOf "a \"' b\\é\n  c $".toList) := by
  have hfaults : faultsOf "a \"' b\\é\n  c $".toList =
      [⟨.unterminatedString '"', ⟨1, 2, 2⟩⟩, ⟨.unterminatedString '\'', ⟨1, 3, 3⟩⟩,
        ⟨.unrecognisedCharacter '\\', ⟨1, 6, 6⟩⟩, ⟨.unrecognisedCharacter 'é', ⟨1, 7, 7⟩⟩,
        ⟨.unrecognisedCharacter '$', ⟨2, 4, 14⟩⟩] := by
    rw [faultsOf_eq_runFor]
    decide +kernel
  have hrecovers : ∀ error ∈ faultsOf "a \"' b\\é\n  c $".toList, error.isFatal = false := by
    rw [hfaults]
    decide
  have hfollows : ∀ error ∈ faultsOf "a \"' b\\é\n  c $".toList,
      error.Follows (tokensOf "a \"' b\\é\n  c $".toList) := by
    rw [hfaults, tokensOf_eq_runFor]
    decide +kernel
  have herased : eraseFaults "a \"' b\\é\n  c $".toList = "a    b  \n  c  ".toList := by
    rw [eraseFaults, hfaults]
    decide
  have hanalyze := analyze_eraseFaults hrecovers hfollows
  rwa [herased] at hanalyze

end Offside
