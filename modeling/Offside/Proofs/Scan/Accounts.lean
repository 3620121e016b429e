import Offside.Proofs.Lexeme.Placed
import Offside.Proofs.Scan.Halting

/-!
# What lexemes account for

Lexemes that stand in their places account for tokens and faults when each token with a text of its own is
one of them, each fault is another, and line ends are the lexemes of the tokens that end lines. Blanks and
comments then stand apart from all of these.

Lexemes cover a text up to an index when every byte in front of it is in exactly one of them.
-/

namespace Offside

open Text

/-- A kind, a text, and the bytes that the text covers. -/
structure TokenSpan where
  kind : Kind
  text : List Char
  start : Nat
  stop : Nat
deriving DecidableEq, Repr

/-- What a token says besides lines and columns. -/
def Token.span (token : Token) : TokenSpan :=
  ⟨token.kind, token.text, token.start.index, token.stop.index⟩

/-- A token that spans a text covers its bytes. -/
@[simp] theorem Token.span_spanning (kind : Kind) (text : List Char) (position : Position) :
    (spanning kind text position).span =
      ⟨kind, text, position.index, position.index + byteLength text⟩ := by
  simp [span, spanning]

/-- A synthetic token covers none. -/
@[simp] theorem Token.span_synthetic (kind : Kind) (position : Position) :
    (synthetic kind position).span = ⟨kind, [], position.index, position.index⟩ := rfl

/-- The tokens that do not come from layout. -/
def properTokens (tokens : List Token) : List Token :=
  tokens.filter fun token => !token.kind.isLayout

/-- The tokens that end lines. -/
def newlineTokens (tokens : List Token) : List Token :=
  tokens.filter fun token => token.kind == .newline

/-- A fault and the byte index where it was found. -/
def LocatedFault.site (error : LocatedFault) : Fault × Nat :=
  (error.fault, error.position.index)

namespace PlacedLexeme

/-- The token that a lexeme is. -/
def token? (placed : PlacedLexeme) : Option TokenSpan :=
  match placed.reading with
  | .token kind => some ⟨kind, placed.text, placed.start, placed.stop⟩
  | _ => none

/-- The line end that a lexeme is. -/
def newline? (placed : PlacedLexeme) : Option TokenSpan :=
  match placed.reading with
  | .lineEnd => some ⟨.newline, placed.text, placed.start, placed.stop⟩
  | _ => none

/-- The fault that a lexeme is. -/
def fault? (placed : PlacedLexeme) : Option (Fault × Nat) :=
  match placed.reading with
  | .fault fault => some (fault, placed.start)
  | _ => none

variable {placed : PlacedLexeme}

/-- A lexeme that is a token has its text and covers its bytes. -/
theorem of_token? {span : TokenSpan} (h : placed.token? = some span) :
    placed.reading = .token span.kind ∧ placed.text = span.text ∧ span.start = placed.start ∧
      span.stop = placed.stop := by
  unfold token? at h
  split at h <;> cases h
  exact ⟨by assumption, rfl, rfl, rfl⟩

/-- A lexeme that is a line end covers the bytes of the line end. -/
theorem of_newline? {span : TokenSpan} (h : placed.newline? = some span) :
    placed.reading = .lineEnd ∧ span.start = placed.start ∧ span.stop = placed.stop := by
  unfold newline? at h
  split at h <;> cases h
  exact ⟨by assumption, rfl, rfl⟩

/-- A lexeme that is a fault starts where the fault is. -/
theorem of_fault? {site : Fault × Nat} (h : placed.fault? = some site) :
    placed.reading = .fault site.1 ∧ site.2 = placed.start := by
  unfold fault? at h
  split at h <;> cases h
  exact ⟨by assumption, rfl⟩

end PlacedLexeme

/-- Lexemes account for the tokens and faults of a scan that has read them. -/
structure Accounts (lexemes : List PlacedLexeme) (tokens : List Token) (errors : List LocatedFault) :
    Prop where
  /-- The tokens that do not come from layout are the token lexemes, in order. -/
  tokens_eq : (properTokens tokens).map Token.span = lexemes.filterMap PlacedLexeme.token?
  /-- The faults are the lexemes that were not understood, in order. -/
  errors_eq : errors.map LocatedFault.site = lexemes.filterMap PlacedLexeme.fault?
  /-- The tokens that end lines are some of the line ends, in order. -/
  newlines : ((newlineTokens tokens).map Token.span).Sublist (lexemes.filterMap PlacedLexeme.newline?)
  /-- Nothing that has a text and no fault touches a blank or a comment. -/
  trivia : ∀ placed ∈ lexemes, placed.reading = .blank ∨ placed.reading = .comment →
    (∀ token ∈ tokens, token.kind.isSynthetic = false →
      token.stop.index ≤ placed.start ∨ placed.stop ≤ token.start.index) ∧
    ∀ error ∈ errors, error.position.index < placed.start ∨ placed.stop ≤ error.position.index

/-- Lexemes cover the bytes of a text up to an index, each byte once. -/
structure Covers (lexemes : List PlacedLexeme) (source : List Char) (index : Nat) : Prop where
  /-- Together they are the text in front of the index. -/
  joined : takeBytes? index source = some (lexemes.map PlacedLexeme.text).flatten
  /-- Every byte is in exactly one of them. -/
  unique : ∀ byte < index, ∃! placed, placed ∈ lexemes ∧ placed.start ≤ byte ∧ byte < placed.stop
  /-- A lexeme that was not understood is one character. -/
  faults : ∀ placed ∈ lexemes, ∀ fault, placed.reading = .fault fault → ∃ c, placed.text = [c]

/-- A kind is proper, that of line ends, or synthetic. -/
theorem Kind.isLayout_eq_false_or (kind : Kind) :
    kind.isLayout = false ∨ kind = .newline ∨ kind.isSynthetic = true := by
  cases kind <;> simp [isLayout, isSynthetic]

/-- A token with a text is one of the lexemes that the tokens were read from, and that is no blank or comment. -/
theorem exists_placed_of_token {lexemes : List PlacedLexeme} {tokens : List Token} {token : Token}
    (htokens : (properTokens tokens).map Token.span = lexemes.filterMap PlacedLexeme.token?)
    (hnewlines : ((newlineTokens tokens).map Token.span).Sublist (lexemes.filterMap PlacedLexeme.newline?))
    (htoken : token ∈ tokens) (hsynthetic : token.kind.isSynthetic = false) :
    ∃ placed ∈ lexemes, ¬ (placed.reading = .blank ∨ placed.reading = .comment) ∧
      token.start.index = placed.start ∧ token.stop.index = placed.stop := by
  rcases token.kind.isLayout_eq_false_or with hkind | hkind | hkind
  · have hmem : token.span ∈ (properTokens tokens).map Token.span :=
      List.mem_map_of_mem (List.mem_filter.2 ⟨htoken, by simp [hkind]⟩)
    rw [htokens] at hmem
    obtain ⟨placed, hplaced, hspan⟩ := List.mem_filterMap.1 hmem
    obtain ⟨hreading, -, hbytes⟩ := PlacedLexeme.of_token? hspan
    exact ⟨placed, hplaced, by simp [hreading], hbytes⟩
  · have hmem : token.span ∈ (newlineTokens tokens).map Token.span :=
      List.mem_map_of_mem (List.mem_filter.2 ⟨htoken, by simp [hkind]⟩)
    obtain ⟨placed, hplaced, hspan⟩ := List.mem_filterMap.1 (hnewlines.subset hmem)
    obtain ⟨hreading, hbytes⟩ := PlacedLexeme.of_newline? hspan
    exact ⟨placed, hplaced, by simp [hreading], hbytes⟩
  · rw [hkind] at hsynthetic
    cases hsynthetic

/-- A fault is where one of the lexemes starts, and that is no blank or comment. -/
theorem exists_placed_of_error {lexemes : List PlacedLexeme} {errors : List LocatedFault} {error : LocatedFault}
    (herrors : errors.map LocatedFault.site = lexemes.filterMap PlacedLexeme.fault?) (herror : error ∈ errors) :
    ∃ placed ∈ lexemes, ¬ (placed.reading = .blank ∨ placed.reading = .comment) ∧
      error.position.index = placed.start := by
  have hmem : error.site ∈ errors.map LocatedFault.site := List.mem_map_of_mem herror
  rw [herrors] at hmem
  obtain ⟨placed, hplaced, hsite⟩ := List.mem_filterMap.1 hmem
  obtain ⟨hreading, hstart⟩ := PlacedLexeme.of_fault? hsite
  exact ⟨placed, hplaced, by simp [hreading], hstart⟩

/-- Lexemes that stand for the tokens and faults keep these apart from blanks and comments. -/
theorem accounts_placeFrom {lexemes : List Lexeme} {tokens : List Token} {errors : List LocatedFault}
    (hne : ∀ lexeme ∈ lexemes, lexeme.text ≠ [])
    (htokens : (properTokens tokens).map Token.span =
      (placeFrom 0 lexemes).filterMap PlacedLexeme.token?)
    (hnewlines : ((newlineTokens tokens).map Token.span).Sublist
      ((placeFrom 0 lexemes).filterMap PlacedLexeme.newline?))
    (herrors : errors.map LocatedFault.site = (placeFrom 0 lexemes).filterMap PlacedLexeme.fault?) :
    Accounts (placeFrom 0 lexemes) tokens errors where
  tokens_eq := htokens
  errors_eq := herrors
  newlines := hnewlines
  trivia := by
    intro placed hplaced htrivia
    -- what is read as something else is another lexeme, and lexemes share no byte
    have hapart : ∀ other ∈ placeFrom 0 lexemes, ¬ (other.reading = .blank ∨ other.reading = .comment) →
        other.Apart placed := by
      intro other hother hreading
      exact apart_of_mem_placeFrom hother hplaced fun heq => hreading (heq ▸ htrivia)
    constructor
    · intro token htoken hsynthetic
      obtain ⟨other, hother, hreading, hstart, hstop⟩ :=
        exists_placed_of_token htokens hnewlines htoken hsynthetic
      rw [hstart, hstop]
      exact hapart other hother hreading
    · intro error herror
      obtain ⟨other, hother, hreading, hstart⟩ := exists_placed_of_error herrors herror
      have hpos : other.start < other.stop :=
        Nat.lt_add_of_pos_right (byteLength_pos (hne _ (exists_of_mem_placeFrom hother)))
      rw [hstart]
      exact (hapart other hother hreading).imp_left fun hbefore => by omega

/-- The lexemes at the front of a text cover the bytes up to where they stop. -/
theorem covers_placeFrom {source rest : List Char} {read : List Lexeme}
    (h : segment source = read ++ segment rest) :
    Covers (placeFrom 0 read) source (byteLength (joinTexts read)) where
  joined := by
    have hsource : source = joinTexts read ++ joinTexts (segment rest) := by
      rw [← joinTexts_append, ← h]
      exact (flatten_segment source).symm
    rw [map_text_placeFrom]
    conv => lhs; rw [hsource]
    exact takeBytes?_append _ _
  unique := fun byte hbyte => existsUnique_mem_placeFrom (Nat.zero_le byte) (by omega)
  faults := by
    intro placed hplaced fault hreading
    have hmem : ⟨placed.reading, placed.text⟩ ∈ segment source := by
      rw [h]
      exact List.mem_append_left _ (exists_of_mem_placeFrom hplaced)
    obtain ⟨window, hwindow⟩ := exists_classify_of_mem_segment hmem
    rw [hreading] at hwindow
    obtain ⟨c, -, -, htext, -⟩ := exists_of_classify_fault hwindow
    exact ⟨c, htext⟩

end Offside
