import Offside.Proofs.Scan.Accounts

/-!
# Scans read the lexemes of a text

A scan cuts a text exactly where repeated classification cuts it. Each token with a text of its own is one
of the lexemes, each recovered fault is another, and line ends are the lexemes of the tokens that end
lines. Blanks and comments leave nothing, and layout adds no text.

The simulation is by steps: what a scan has left behind is always what the lexemes read so far stand for,
and what it has in front of it is cut into the lexemes that are left. A scan that halts does so between
two lexemes.
-/

namespace Offside

open Text

namespace ScanState

/-- The tokens and faults left behind are those that the lexemes read so far stand for. -/
structure ReadsLexemes (source : List Char) (events : List Event) (state : ScanState)
    (read : List Lexeme) : Prop where
  segment_eq : segment source = read ++ segment state.rest
  index_eq : state.position.index = byteLength (joinTexts read)
  tokens_eq : (properTokens (Event.tokens events)).map Token.span =
    (placeFrom 0 read).filterMap PlacedLexeme.token?
  newlines : ((newlineTokens (Event.tokens events)).map Token.span).Sublist
    ((placeFrom 0 read).filterMap PlacedLexeme.newline?)
  errors_eq : ((Event.errors events).filter fun error => !error.isFatal).map LocatedFault.site =
    (placeFrom 0 read).filterMap PlacedLexeme.fault?

namespace ReadsLexemes

variable {source : List Char} {events new : List Event} {state next : ScanState} {read : List Lexeme}

/-- A step that reads nothing leaves only layout behind. -/
theorem stay (h : ReadsLexemes source events state read) (hrest : next.rest = state.rest)
    (hposition : next.position = state.position) (htokens : properTokens (Event.tokens new) = [])
    (hnewlines : newlineTokens (Event.tokens new) = [])
    (herrors : ((Event.errors new).filter fun error => !error.isFatal) = []) :
    ReadsLexemes source (events ++ new) next read where
  segment_eq := by rw [hrest, h.segment_eq]
  index_eq := by rw [hposition, h.index_eq]
  tokens_eq := by
    rw [properTokens] at htokens ⊢
    rw [Event.tokens_append, List.filter_append, htokens, List.append_nil]
    exact h.tokens_eq
  newlines := by
    rw [newlineTokens] at hnewlines ⊢
    rw [Event.tokens_append, List.filter_append, hnewlines, List.append_nil]
    exact h.newlines
  errors_eq := by
    rw [Event.errors_append, List.filter_append, herrors, List.append_nil]
    exact h.errors_eq

/-- A step that reads a lexeme leaves behind what the lexeme stands for. -/
theorem read_lexeme {lexeme : Lexeme} {mode : Mode} (h : ReadsLexemes source events state read)
    (hlexeme : classify state.rest = some lexeme)
    (htokens : (properTokens (Event.tokens new)).map Token.span =
      [⟨lexeme.reading, lexeme.text, state.position.index⟩].filterMap PlacedLexeme.token?)
    (hnewlines : ((newlineTokens (Event.tokens new)).map Token.span).Sublist
      ([⟨lexeme.reading, lexeme.text, state.position.index⟩].filterMap PlacedLexeme.newline?))
    (herrors : ((Event.errors new).filter fun error => !error.isFatal).map LocatedFault.site =
      [⟨lexeme.reading, lexeme.text, state.position.index⟩].filterMap PlacedLexeme.fault?) :
    ReadsLexemes source (events ++ new) (state.past lexeme.text mode) (read ++ [lexeme]) := by
  have hplaced : placeFrom 0 (read ++ [lexeme]) =
      placeFrom 0 read ++ [⟨lexeme.reading, lexeme.text, state.position.index⟩] := by
    rw [placeFrom_append, Nat.zero_add, ← h.index_eq]
    rfl
  refine ⟨?_, ?_, ?_, ?_, ?_⟩
  · rw [h.segment_eq, segment_of_classify hlexeme, List.append_assoc]
    rfl
  · simp [past, h.index_eq]
  · rw [hplaced, List.filterMap_append, ← h.tokens_eq, ← htokens, ← List.map_append, properTokens,
      Event.tokens_append, List.filter_append]
    rfl
  · rw [hplaced, List.filterMap_append, newlineTokens, Event.tokens_append, List.filter_append,
      List.map_append]
    exact h.newlines.append hnewlines
  · rw [hplaced, List.filterMap_append, ← h.errors_eq, ← herrors, ← List.map_append,
      Event.errors_append, List.filter_append]

/-- Trivia stand for no token and no fault. -/
theorem read_trivia {lexeme : Lexeme} {mode : Mode} (h : ReadsLexemes source events state read)
    (hlexeme : classify state.rest = some lexeme) (htrivia : lexeme.reading.isTrivia = true) :
    ReadsLexemes source (events ++ []) (state.past lexeme.text mode) (read ++ [lexeme]) := by
  refine h.read_lexeme hlexeme ?_ (List.nil_sublist _) ?_
  · cases hreading : lexeme.reading <;> simp_all [properTokens, PlacedLexeme.token?, Reading.isTrivia]
  · cases hreading : lexeme.reading <;> simp_all [PlacedLexeme.fault?, Reading.isTrivia]

/-- Every move reads at most one lexeme and leaves behind what that stands for. -/
theorem move (h : ReadsLexemes source events state read) (hmove : state.Moves new next) :
    ∃ more, ReadsLexemes source (events ++ new) next (read ++ more) := by
  cases hmove with
  | skipsInMargin hmode hlexeme htrivia => exact ⟨_, h.read_trivia hlexeme htrivia⟩
  | skipsInLine hmode hlexeme htrivia hjoined => exact ⟨_, h.read_trivia hlexeme htrivia⟩
  | opens hmode hlexeme htrivia hwider =>
    refine ⟨[], ?_⟩
    rw [List.append_nil]
    exact h.stay rfl rfl rfl rfl rfl
  | settles hmode hlexeme htrivia hblocks hclosed hkept =>
    refine ⟨[], ?_⟩
    rw [List.append_nil]
    exact h.stay rfl rfl (by simp [properTokens, Token.synthetic, Kind.isLayout])
      (by simp [newlineTokens, Token.synthetic]) (by simp)
  | misfits hmode hlexeme htrivia hblocks hclosed hkept hnarrow herror =>
    refine ⟨[], ?_⟩
    rw [List.append_nil]
    exact h.stay rfl rfl (by simp [properTokens, Token.synthetic, Kind.isLayout])
      (by simp [newlineTokens, Token.synthetic])
      (by simp [herror, LocatedFault.isFatal, Fault.isFatal])
  | endsLine hmode hlexeme =>
    refine ⟨_, h.read_lexeme hlexeme rfl ?_ rfl⟩
    simp [newlineTokens, Token.spanning, Token.span, PlacedLexeme.newline?, PlacedLexeme.stop]
  | @yields depth kind text hmode hlexeme =>
    have hkind := isLayout_of_classify hlexeme
    have hnewline : kind ≠ .newline := by
      intro heq
      subst heq
      cases hkind
    refine ⟨_, h.read_lexeme hlexeme ?_ ?_ rfl⟩
    · simp [properTokens, Token.spanning, Token.span, PlacedLexeme.token?, PlacedLexeme.stop, hkind]
    · simp [newlineTokens, Token.spanning, hnewline]
  | reports hmode hlexeme =>
    have hfatal := recoverable_of_classify hlexeme
    refine ⟨_, h.read_lexeme hlexeme rfl (List.nil_sublist _) ?_⟩
    simp [LocatedFault.isFatal, hfatal, LocatedFault.site, PlacedLexeme.fault?]

/-- In every state of a scan, what is left behind is what the lexemes read so far stand for. -/
theorem of_steps (h : Steps (initial source) events state) :
    ∃ read, ReadsLexemes source events state read := by
  induction h with
  | refl => exact ⟨[], rfl, rfl, rfl, List.nil_sublist _, rfl⟩
  | tail _ hstep ih =>
    obtain ⟨read, hread⟩ := ih
    obtain ⟨more, hmore⟩ := hread.move (moves_of_step hstep)
    exact ⟨_, hmore⟩

end ReadsLexemes

end ScanState

/-- The lexemes that a scan has read account for its tokens and for its faults but a fatal one. -/
theorem accounts_of_run (source : List Char) :
    ∃ read, segment source = read ++ segment (ScanState.initial source).run.2.rest ∧
      (ScanState.initial source).run.2.position.index = byteLength (joinTexts read) ∧
      Accounts (placeFrom 0 read) (tokensOf source)
        ((faultsOf source).filter fun error => !error.isFatal) := by
  obtain ⟨read, hread⟩ := ScanState.ReadsLexemes.of_steps (ScanState.steps_run (.initial source))
  have hne : ∀ lexeme ∈ read, lexeme.text ≠ [] := fun lexeme hmem =>
    ne_nil_of_mem_segment (by rw [hread.segment_eq]; exact List.mem_append_left _ hmem)
  refine ⟨read, hread.segment_eq, hread.index_eq, accounts_placeFrom hne ?_ ?_ ?_⟩
  · rw [← hread.tokens_eq, tokensOf_eq_run, properTokens, properTokens, List.filter_append,
      ScanState.tokens_finish]
    simp [Token.synthetic, Kind.isLayout]
  · have hnewlines := hread.newlines
    rw [newlineTokens] at hnewlines
    rw [tokensOf_eq_run, newlineTokens, List.filter_append, ScanState.tokens_finish]
    simpa [Token.synthetic] using hnewlines
  · rw [← hread.errors_eq, faultsOf_eq_run]

/-- A token with a text of its own is one of the lexemes of the text. -/
theorem mem_segment_of_mem_tokensOf {source : List Char} {token : Token} (htoken : token ∈ tokensOf source)
    (hproper : token.kind.isLayout = false) : ⟨.token token.kind, token.text⟩ ∈ segment source := by
  obtain ⟨read, hsegment, -, haccounts⟩ := accounts_of_run source
  have hmem : token.span ∈ (properTokens (tokensOf source)).map Token.span :=
    List.mem_map_of_mem (List.mem_filter.2 ⟨htoken, by simp [hproper]⟩)
  rw [haccounts.tokens_eq] at hmem
  obtain ⟨placed, hplaced, hspan⟩ := List.mem_filterMap.1 hmem
  obtain ⟨hreading, htext, -⟩ := PlacedLexeme.of_token? hspan
  have hlexeme := exists_of_mem_placeFrom hplaced
  rw [hreading, htext] at hlexeme
  rw [hsegment]
  exact List.mem_append_left _ hlexeme

/-- Repeated classification accounts for every scan. Without a fatal fault the lexemes of the whole text
do; with one, those in front of it do, it stands between two lexemes, and it is the last fault. -/
theorem scan_accounts_for_segment (source : List Char) :
    ((∀ position width expected, ⟨.inconsistentDedent width expected, position⟩ ∉ faultsOf source) →
      (Scan.ofSource source).position.index = byteLength source ∧
        Accounts (placedLexemes source) (tokensOf source) (faultsOf source) ∧
        Covers (placedLexemes source) source (byteLength source)) ∧
    ∀ position width expected, ⟨.inconsistentDedent width expected, position⟩ ∈ faultsOf source →
      let read := (placedLexemes source).filter fun placed => placed.start < position.index
      (Scan.ofSource source).position = position ∧
        (∃ placed ∈ placedLexemes source, placed.start = position.index) ∧
        (∃ earlier, faultsOf source = earlier ++ [⟨.inconsistentDedent width expected, position⟩] ∧
          Accounts read (tokensOf source) earlier) ∧
        Covers read source position.index := by
  obtain ⟨read, hsegment, hindex, haccounts⟩ := accounts_of_run source
  have hcovers := covers_placeFrom hsegment
  constructor
  · intro hnone
    obtain ⟨hrest, hrecovered⟩ := runs_to_end hnone
    have hplaced : placedLexemes source = placeFrom 0 read := by
      rw [placedLexemes, hsegment, hrest, segment_nil, List.append_nil]
    have hlength : byteLength (joinTexts read) = byteLength source := by
      rw [← flatten_segment source, hsegment, hrest, segment_nil, List.append_nil]
      rfl
    rw [List.filter_eq_self.2 fun error herror => by simp [hrecovered error herror]] at haccounts
    rw [hplaced, ← hlength]
    exact ⟨hindex, haccounts, hcovers⟩
  · intro position width expected hmem
    obtain ⟨-, hrest, rfl, earlier, herrors, hearlier⟩ := halts_at_misfit hmem
    have hread : ((placedLexemes source).filter fun placed =>
        placed.start < byteLength (joinTexts read)) = placeFrom 0 read := by
      rw [placedLexemes, hsegment]
      refine filter_placeFrom fun lexeme hlexeme => @ne_nil_of_mem_segment source _ ?_
      rw [hsegment]
      exact List.mem_append_left _ hlexeme
    have hfilter : (faultsOf source).filter (fun error => !error.isFatal) = earlier := by
      rw [herrors, List.filter_append, List.filter_eq_self.2 fun e he => by simp [hearlier e he]]
      simp [LocatedFault.isFatal, Fault.isFatal]
    rw [hfilter] at haccounts
    dsimp only
    rw [hindex, hread]
    exact ⟨rfl, exists_placed_of_ne_nil hsegment hrest, ⟨earlier, herrors, haccounts⟩, hcovers⟩

end Offside
