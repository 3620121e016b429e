import Offside.Proofs.Layout.Reference
import Offside.Proofs.Lexeme.Context
import Offside.Proofs.Scan.Positions

/-!
# Reading printed lines

A printed line is read lexeme by lexeme: its margin, its words with the spaces between them, and its line
feed. Each of these is found whatever stands behind it, and behind the line the scan is in a margin again.

Where a scan stands matters to what it does only by the text left, the open blocks and the mode. Its
position is only passed on to tokens and faults, so it is left out here.
-/

namespace Offside

namespace Layout

/-- A state of a scan apart from its position. -/
structure View where
  rest : List Char
  blocks : List Nat
  mode : Mode

/-- The state at a position. -/
def View.stateAt (view : View) (position : Position) : ScanState :=
  ⟨view.rest, position, view.blocks, view.mode⟩

/-- A scan gets from one view to another, from every position, and yields tokens but no faults. -/
def Reads (view : View) (forms : List Form) (next : View) : Prop :=
  ∀ position, ∃ events position', ScanState.Steps (view.stateAt position) events (next.stateAt position') ∧
    (Event.tokens events).map Token.form = forms ∧ Event.errors events = []

namespace Reads

variable {view middle next : View} {forms later : List Form}

/-- Reading goes on from where it has come to. -/
theorem trans (hfirst : Reads view forms middle) (hlater : Reads middle later next) :
    Reads view (forms ++ later) next := by
  intro position
  obtain ⟨events, position', hsteps, hforms, herrors⟩ := hfirst position
  obtain ⟨events', position'', hsteps', hforms', herrors'⟩ := hlater position'
  refine ⟨events ++ events', position'', hsteps.trans hsteps', ?_, ?_⟩
  · rw [Event.tokens_append, List.map_append, hforms, hforms']
  · rw [Event.errors_append, herrors, herrors', List.append_nil]

/-- Where nothing is read, nothing is yielded. -/
theorem refl (view : View) : Reads view [] view :=
  fun position => ⟨[], position, .refl, rfl, rfl⟩

end Reads

/-- The position of a state is found by going over the text in front of it. -/
theorem position_eq_of_steps {source before : List Char} {events : List Event} {position : Position}
    {view : View} (hsource : source = before ++ view.rest)
    (hsteps : ScanState.Steps (.initial source) events (view.stateAt position)) :
    position = Position.start.advanceOver before := by
  obtain ⟨front, hfront, hmark⟩ := (ScanState.Tracks.of_steps hsteps).cut
  have hsame : front = before := List.append_cancel_right (hfront.symm.trans hsource)
  rw [← hsame]
  exact hmark.advanced

section Lexemes

variable {text after : List Char} {blocks : List Nat}

/-- Behind a text at the front of the rest, what follows it is left. -/
theorem stateAt_past (mode mode' : Mode) (position : Position) :
    ((View.mk (text ++ after) blocks mode).stateAt position).past text mode' =
      (View.mk after blocks mode').stateAt (position.advanceOver text) := by
  simp [View.stateAt, ScanState.past]

/-- A lexeme between tokens is skipped in a margin. -/
theorem reads_of_trivia {measured : Option Nat} {reading : Reading}
    (hlexeme : classify (text ++ after) = some ⟨reading, text⟩) (htrivia : reading.isTrivia = true) :
    Reads ⟨text ++ after, blocks, .margin measured⟩ []
      ⟨after, blocks, ScanState.marginBehind measured ⟨reading, text⟩⟩ := by
  intro position
  have hstep := @ScanState.step_of_trivia (View.stateAt ⟨text ++ after, blocks, .margin measured⟩ position)
    measured ⟨reading, text⟩ rfl hlexeme htrivia
  rw [stateAt_past] at hstep
  exact ⟨_, _, .single hstep, rfl, rfl⟩

/-- Behind the margin, what separates tokens is skipped unless it ends the line. -/
theorem reads_of_skipped {depth : Nat} {reading : Reading}
    (hlexeme : classify (text ++ after) = some ⟨reading, text⟩) (htrivia : reading.isTrivia = true)
    (hjoined : reading = .lineEnd → depth ≠ 0) :
    Reads ⟨text ++ after, blocks, .line depth⟩ [] ⟨after, blocks, .line depth⟩ := by
  intro position
  have hstep := @ScanState.step_of_line (View.stateAt ⟨text ++ after, blocks, .line depth⟩ position)
    depth _ rfl hlexeme
  have hskips : ScanState.readLine (View.stateAt ⟨text ++ after, blocks, .line depth⟩ position) depth
      ⟨reading, text⟩ = ([], (View.mk after blocks (.line depth)).stateAt (position.advanceOver text)) := by
    cases reading with
    | blank | comment => rw [ScanState.readLine, stateAt_past]
    | lineEnd => rw [ScanState.readLine, if_neg (hjoined rfl), stateAt_past]
    | token kind => cases htrivia
    | fault fault => cases htrivia
  rw [hskips] at hstep
  exact ⟨_, _, .single hstep, rfl, rfl⟩

/-- A token is yielded. -/
theorem reads_of_token {depth : Nat} {kind : Kind}
    (hlexeme : classify (text ++ after) = some ⟨.token kind, text⟩) :
    Reads ⟨text ++ after, blocks, .line depth⟩ [⟨kind, text⟩]
      ⟨after, blocks, .line (kind.nest depth)⟩ := by
  intro position
  have hstep := @ScanState.step_of_line (View.stateAt ⟨text ++ after, blocks, .line depth⟩ position)
    depth _ rfl hlexeme
  simp only [ScanState.readLine, stateAt_past] at hstep
  exact ⟨[.emitted (.spanning kind text position)], _, .single hstep, rfl, rfl⟩

/-- A line feed outside brackets ends the line. -/
theorem reads_lineFeed (after : List Char) (blocks : List Nat) :
    Reads ⟨'\n' :: after, blocks, .line 0⟩ [newlineForm] ⟨after, blocks, .margin none⟩ := by
  intro position
  have hstep := @ScanState.step_of_line (View.stateAt ⟨['\n'] ++ after, blocks, .line 0⟩ position)
    0 _ rfl (classify_lineFeed after)
  rw [ScanState.readLine, if_pos rfl, stateAt_past] at hstep
  exact ⟨[.emitted (.spanning .newline ['\n'] position)], _, .single hstep, rfl, rfl⟩

end Lexemes

/-- Brackets are counted as the scan counts them. -/
theorem bracketDepth_eq (depth : Nat) (kind : Kind) : bracketDepth depth kind = kind.nest depth := by
  cases kind with
  | delimiter symbol => cases symbol <;> rfl
  | _ => rfl

/-- Whether a text is empty or opens with a character that separates no tokens. -/
def Resumes (after : List Char) : Prop :=
  ∀ c, after.head? = some c → Text.isBlank c = false ∧ Text.isLineEnd c = false

/-- Words open with no separator. -/
theorem Word.resumes (word : Word) (after : List Char) : Resumes (word.text ++ after) := by
  obtain ⟨kind, text, hwhole⟩ := word
  intro c hc
  cases text with
  | nil => cases hwhole
  | cons d ds =>
    obtain rfl : d = c := Option.some.inj hc
    exact ⟨isBlank_eq_false_of_classify hwhole rfl, isLineEnd_eq_false_of_classify hwhole rfl⟩

/-- A word is read in front of a separator. -/
theorem Word.classify_append (word : Word) {after : List Char} (hafter : Separates after) :
    classify (word.text ++ after) = some ⟨.token word.kind, word.text⟩ :=
  Offside.classify_append word.whole hafter

/-- A text that opens with a line feed separates. -/
theorem separates_lineFeed (after : List Char) : Separates ('\n' :: after) :=
  Text.forall_head?_cons (Or.inr rfl) after

/-- A text that opens with a space separates. -/
theorem separates_space (after : List Char) : Separates (' ' :: after) :=
  Text.forall_head?_cons (Or.inl rfl) after

/-- Words do not open with a blank. -/
theorem isBlank_head?_joinWords {words : List Word} (hne : words ≠ []) (after : List Char) :
    ∀ c, (joinWords words ++ after).head? = some c → Text.isBlank c = false := by
  match words with
  | [] => exact absurd rfl hne
  | [word] => exact fun c hc => (word.resumes after c hc).1
  | word :: next :: words =>
    rw [joinWords, List.append_assoc]
    exact fun c hc => (word.resumes _ c hc).1

/-- Words in front of a separator open with a token. -/
theorem classify_joinWords {words : List Word} (hne : words ≠ []) {after : List Char}
    (hafter : Separates after) :
    ∃ lexeme, classify (joinWords words ++ after) = some lexeme ∧ lexeme.reading.isTrivia = false := by
  match words with
  | [] => exact absurd rfl hne
  | [word] => exact ⟨_, word.classify_append hafter, rfl⟩
  | word :: next :: words =>
    rw [joinWords, List.append_assoc]
    exact ⟨_, word.classify_append (separates_space _), rfl⟩

/-- Words are read one after another, up to a separator. -/
theorem reads_joinWords {words : List Word} (hne : words ≠ []) {after : List Char}
    (hafter : Separates after) (blocks : List Nat) (depth : Nat) :
    Reads ⟨joinWords words ++ after, blocks, .line depth⟩ (words.map Word.form)
      ⟨after, blocks, .line (words.foldl (fun depth word => bracketDepth depth word.kind) depth)⟩ := by
  induction words generalizing depth with
  | nil => exact absurd rfl hne
  | cons word words ih =>
    cases words with
    | nil =>
      rw [List.foldl_cons, bracketDepth_eq]
      exact reads_of_token (word.classify_append hafter)
    | cons next words =>
      have hword := word.classify_append (separates_space (joinWords (next :: words) ++ after))
      have hspace : classify ([' '] ++ (joinWords (next :: words) ++ after)) = some ⟨.blank, [' ']⟩ :=
        classify_blanks (List.cons_ne_nil _ _) (fun c hc => by rw [List.mem_singleton.1 hc]; rfl)
          (isBlank_head?_joinWords (List.cons_ne_nil _ _) _)
      have hlater := ih (List.cons_ne_nil _ _) (bracketDepth depth word.kind)
      rw [joinWords, List.append_assoc, List.foldl_cons]
      rw [bracketDepth_eq] at hlater ⊢
      exact ((reads_of_token hword).trans (reads_of_skipped hspace rfl nofun)).trans hlater

/-- A margin is read up to the first other character, and its width is that of its blanks. -/
theorem reads_margin (margin : Margin) {after : List Char} (blocks : List Nat)
    (hafter : ∀ c, after.head? = some c → Text.isBlank c = false) :
    ∃ measured : Option Nat, measured.getD 0 = indentWidth margin.text ∧
      Reads ⟨margin.text ++ after, blocks, .margin none⟩ [] ⟨after, blocks, .margin measured⟩ := by
  by_cases hmargin : margin.text = []
  · refine ⟨none, by rw [hmargin]; rfl, ?_⟩
    rw [hmargin]
    exact .refl _
  · refine ⟨some (indentWidth margin.text), rfl, ?_⟩
    exact reads_of_trivia (classify_blanks hmargin margin.blank hafter) rfl

/-- A blank line yields nothing. -/
theorem reads_blank (margin : Margin) (remark? : Option Remark) (after : List Char) (blocks : List Nat) :
    Reads ⟨(Line.blank margin remark?).print ++ after, blocks, .margin none⟩ []
      ⟨after, blocks, .margin none⟩ := by
  have hend : ∀ measured, Reads ⟨'\n' :: after, blocks, .margin measured⟩ [] ⟨after, blocks, .margin none⟩ :=
    fun _ => @reads_of_trivia ['\n'] _ _ _ _ (classify_lineFeed after) rfl
  cases remark? with
  | none =>
    obtain ⟨measured, -, hmargin⟩ := @reads_margin margin ('\n' :: after) blocks
      (Text.forall_head?_cons (q := (Text.isBlank · = false)) rfl _)
    rw [Line.print, List.append_assoc]
    exact hmargin.trans (hend measured)
  | some remark =>
    obtain ⟨measured, -, hmargin⟩ := @reads_margin margin ('#' :: remark.text ++ '\n' :: after) blocks
      (Text.forall_head?_cons (q := (Text.isBlank · = false)) rfl _)
    have hcomment : classify ('#' :: remark.text ++ '\n' :: after) = some ⟨.comment, '#' :: remark.text⟩ :=
      classify_comment remark.closed (Text.forall_head?_cons (q := (Text.isLineEnd · = true)) rfl _)
    rw [Line.print, List.append_assoc, List.append_assoc]
    exact (hmargin.trans (reads_of_trivia hcomment rfl)).trans (hend _)

section Margins

variable {after : List Char} {blocks closed kept : List Nat} {measured : Option Nat} {lexeme : Lexeme}

/-- A margin that opens a block yields a token for it. -/
theorem reads_indent (hlexeme : classify after = some lexeme) (htrivia : lexeme.reading.isTrivia = false)
    (hshift : shift blocks (measured.getD 0) = .opens) :
    Reads ⟨after, blocks, .margin measured⟩ [indentForm]
      ⟨after, measured.getD 0 :: blocks, .line 0⟩ := by
  intro position
  have hstep := @ScanState.step_of_proper (View.stateAt ⟨after, blocks, .margin measured⟩ position)
    measured lexeme rfl hlexeme htrivia
  simp only [View.stateAt, ScanState.enterLine, hshift] at hstep
  exact ⟨[.opened _, .emitted (.synthetic .indent position)], position, .single hstep, rfl, rfl⟩

/-- A margin that settles in a block yields a token for each block that it closes. -/
theorem reads_dedents (hlexeme : classify after = some lexeme) (htrivia : lexeme.reading.isTrivia = false)
    (hshift : shift blocks (measured.getD 0) = .settles closed kept) :
    Reads ⟨after, blocks, .margin measured⟩ (closed.map fun _ => dedentForm)
      ⟨after, kept, .line 0⟩ := by
  intro position
  have hstep := @ScanState.step_of_proper (View.stateAt ⟨after, blocks, .margin measured⟩ position)
    measured lexeme rfl hlexeme htrivia
  simp only [View.stateAt, ScanState.enterLine, hshift] at hstep
  refine ⟨_, position, .single hstep, ?_, ScanState.errors_closing _ _ _⟩
  rw [ScanState.tokens_closing, List.map_map]
  rfl

/-- A margin that misfits yields these tokens too, and halts the scan. -/
theorem halts_of_margin (hlexeme : classify after = some lexeme)
    (htrivia : lexeme.reading.isTrivia = false)
    (hshift : shift blocks (measured.getD 0) = .misfits closed kept) (position : Position) :
    ∃ events, ScanState.Steps (View.stateAt ⟨after, blocks, .margin measured⟩ position) events
        (View.stateAt ⟨after, kept, .halted⟩ position) ∧
      (Event.tokens events).map Token.form = closed.map (fun _ => dedentForm) ∧
      Event.errors events = [⟨.inconsistentDedent (measured.getD 0) (levels blocks), position⟩] := by
  have hstep := @ScanState.step_of_proper (View.stateAt ⟨after, blocks, .margin measured⟩ position)
    measured lexeme rfl hlexeme htrivia
  simp only [View.stateAt, ScanState.enterLine, hshift] at hstep
  refine ⟨_, .single hstep, ?_, ?_⟩
  · rw [Event.tokens_append, ScanState.tokens_closing, List.map_append, List.map_map]
    exact List.append_nil _
  · rw [Event.errors_append, ScanState.errors_closing]
    rfl

end Margins

/-- Behind its margin, a statement is read up to the next line. -/
theorem reads_statement (statement : Statement) (after : List Char) (blocks : List Nat) :
    Reads ⟨joinWords statement.words ++ '\n' :: after, blocks, .line 0⟩ statement.forms
      ⟨after, blocks, .margin none⟩ := by
  have hwords := reads_joinWords statement.nonempty (separates_lineFeed after) blocks 0
  rw [statement.balanced] at hwords
  exact hwords.trans (reads_lineFeed after blocks)

end Layout

end Offside
