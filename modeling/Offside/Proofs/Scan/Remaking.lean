import Offside.Proofs.Lexeme.Shapes
import Offside.Proofs.Scan.Positions

/-!
# Making tokens again

A token can be made without a scan: by reading the text at its place once more, or from its own text alone, which is
then looked up as a name, as an operator or as a delimiter. Each of these ways has a table or a shape of its own.
What a scan yields they make again, and each of them makes only the tokens of its kinds.

The first character decides this. No two rules open with the same one, quotes aside, so a text that one rule took
is of no other class.
-/

namespace Offside

open Text

/-! ### Rules and kinds -/

namespace Kind

/-- The rule that takes the tokens of a kind. -/
def rule? : Kind → Option Rule
  | .keyword _ | .identifier => some .word
  | .operator _ => some .operator
  | .delimiter _ => some .delimiter
  | .number => some .number
  | .string => some .string
  | .newline => some .lineEnd
  | .comment | .indent | .dedent | .endOfInput => none

variable {kind : Kind}

/-- Names, reserved or not, are of one rule. -/
theorem rule?_eq_word_iff : kind.rule? = some .word ↔ kind.isKeyword = true ∨ kind = .identifier := by
  cases kind <;> simp [rule?, isKeyword]

theorem rule?_eq_operator_iff : kind.rule? = some .operator ↔ kind.isOperator = true := by
  cases kind <;> simp [rule?, isOperator]

theorem rule?_eq_delimiter_iff : kind.rule? = some .delimiter ↔ kind.isDelimiter = true := by
  cases kind <;> simp [rule?, isDelimiter]

/-- Names are of the rule for names. -/
theorem rule?_ofWord (text : List Char) : (ofWord text).rule? = some .word := by
  rw [ofWord]
  cases Keyword.ofText? text <;> rfl

/-- A name is a keyword if it is reserved. -/
theorem isKeyword_ofWord (text : List Char) : (ofWord text).isKeyword = (Keyword.ofText? text).isSome := by
  rw [ofWord]
  cases Keyword.ofText? text <;> rfl

end Kind

namespace Rule

variable {rule other : Rule} {window text : List Char} {lexeme : Lexeme} {kind : Kind} {c : Char}

/-- The kind of the tokens that a rule takes, where they have a text. -/
def kindOf? (text : List Char) : Rule → Option Kind
  | .blank | .comment => none
  | .lineEnd => some .newline
  | .string => some .string
  | .number => some .number
  | .word => some (.ofWord text)
  | .operator => (Operator.ofText? text).map .operator
  | .delimiter => (Delimiter.ofText? text).map .delimiter

/-- The kind of a token is the one of the rule that took it. -/
theorem kindOf?_of_apply (h : Rule.apply window rule = some ⟨.token kind, text⟩) : rule.kindOf? text = some kind := by
  cases takes_of_apply h with
  | literal | digits | fraction | name => rfl
  | operator => rw [kindOf?, Operator.ofText?_eq_some_iff.2 rfl, Option.map_some]
  | delimiter => rw [kindOf?, Delimiter.ofText?_eq_some_iff.2 rfl, Option.map_some]

/-- Line ends are taken by the rule for line ends only. -/
theorem kindOf?_of_lineEnd (h : Rule.apply window rule = some ⟨.lineEnd, text⟩) :
    rule.kindOf? text = some .newline := by
  cases takes_of_apply h <;> rfl

/-- A kind that a rule gives is one of its own. -/
theorem rule?_of_kindOf? (h : rule.kindOf? text = some kind) : kind.rule? = some rule := by
  cases rule with
  | blank | comment => cases h
  | lineEnd | string | number =>
    cases h
    rfl
  | word =>
    cases h
    exact Kind.rule?_ofWord text
  | operator | delimiter =>
    obtain ⟨symbol, -, rfl⟩ := Option.map_eq_some_iff.1 h
    rfl

/-- A rule that takes a text is any rule that the text opens, but for those that open with quotes. -/
theorem eq_of_opensWith (h : Rule.apply window rule = some lexeme) (hhead : lexeme.text.head? = some c)
    (hopens : other.opensWith c = true) (hplain : other ∉ [Rule.comment, Rule.string]) : rule = other := by
  obtain ⟨cs, hcs⟩ := List.head?_eq_some_iff.1 hhead
  obtain ⟨rest, rfl⟩ := (isFront_of_apply h).2
  rw [hcs] at h
  refine (eq_or_isQuote_of_opensWith (opensWith_of_apply h) hopens).resolve_right fun hquote => ?_
  refine hplain ?_
  rcases comment_or_string_of_isQuote hopens hquote with rfl | rfl <;> decide

/-- A name is taken by the rule for names only. -/
theorem eq_word_of_isName (h : Rule.apply window rule = some lexeme) (hname : Token.isName lexeme.text = true) :
    rule = .word := by
  obtain ⟨c, cs, hcs⟩ := List.exists_cons_of_ne_nil (isFront_of_apply h).1
  rw [hcs, Token.isName, Bool.and_eq_true] at hname
  exact eq_of_opensWith h (by rw [hcs]; rfl) hname.1 (by decide)

/-- An operator is taken by the rule for operators only. -/
theorem eq_operator_of_ofText? {symbol : Operator} (h : Rule.apply window rule = some lexeme)
    (hsymbol : Operator.ofText? lexeme.text = some symbol) : rule = .operator := by
  obtain ⟨c, cs, hcs⟩ := List.exists_cons_of_ne_nil (isFront_of_apply h).1
  have hhead : symbol.spelling.toList.head? = some c := by rw [← Operator.ofText?_eq_some_iff.1 hsymbol, hcs]; rfl
  refine eq_of_opensWith h (by rw [hcs]; rfl) (List.any_eq_true.2 ⟨symbol, ?_, beq_iff_eq.2 hhead⟩) (by decide)
  cases symbol <;> decide

/-- A delimiter is taken by the rule for delimiters only. -/
theorem eq_delimiter_of_ofText? {symbol : Delimiter} (h : Rule.apply window rule = some lexeme)
    (hsymbol : Delimiter.ofText? lexeme.text = some symbol) : rule = .delimiter := by
  obtain ⟨c, cs, hcs⟩ := List.exists_cons_of_ne_nil (isFront_of_apply h).1
  have hhead : symbol.spelling.toList.head? = some c := by rw [← Delimiter.ofText?_eq_some_iff.1 hsymbol, hcs]; rfl
  refine eq_of_opensWith h (by rw [hcs]; rfl) (List.any_eq_true.2 ⟨symbol, ?_, beq_iff_eq.2 hhead⟩) (by decide)
  cases symbol <;> decide

end Rule

/-- A reserved word has the shape of a name. -/
theorem Keyword.isName_of_ofText? {text : List Char} {word : Keyword} (h : ofText? text = some word) :
    Token.isName text = true := by
  rw [ofText?_eq_some_iff.1 h]
  cases word <;> decide

/-! ### Tokens that a rule took -/

namespace Token

/-- A token that a rule takes from the front of a text, and that reading the text gives. -/
structure IsTakenBy (token : Token) (rule : Rule) (rest : List Char) : Prop where
  spans : token = .spanning token.kind token.text token.start
  reads : tokenAt? rest token.start = some token
  takes : ∃ reading, Rule.apply rest rule = some ⟨reading, token.text⟩
  kind_eq : rule.kindOf? token.text = some token.kind

namespace IsTakenBy

variable {token : Token} {rule : Rule} {rest : List Char}

/-- A token that was classified is taken by a rule. -/
theorem exists_of_classify {kind : Kind} {text : List Char} (h : classify rest = some ⟨.token kind, text⟩)
    (start : Position) : ∃ rule, (spanning kind text start).IsTakenBy rule rest := by
  rcases classify_cases h with ⟨rule, happly, -⟩ | ⟨c, cs, -, -, heq⟩
  · exact ⟨rule, rfl, by rw [tokenAt?, h]; rfl, ⟨_, happly⟩, Rule.kindOf?_of_apply happly⟩
  · cases heq

/-- So is a line end. -/
theorem exists_of_lineEnd {text : List Char} (h : classify rest = some ⟨.lineEnd, text⟩) (start : Position) :
    ∃ rule, (spanning .newline text start).IsTakenBy rule rest := by
  rcases classify_cases h with ⟨rule, happly, -⟩ | ⟨c, cs, -, -, heq⟩
  · exact ⟨rule, rfl, by rw [tokenAt?, h]; rfl, ⟨_, happly⟩, Rule.kindOf?_of_lineEnd happly⟩
  · cases heq

variable (h : token.IsTakenBy rule rest)

include h

/-- A token with the shape of a name is taken as one, and only such a token. -/
theorem isName_iff : isName token.text = true ↔ rule = .word := by
  obtain ⟨reading, htakes⟩ := h.takes
  refine ⟨Rule.eq_word_of_isName htakes, ?_⟩
  rintro rfl
  exact Rule.isName_of_takes (Rule.takes_of_apply htakes)

/-- A token of a rule is one of its kinds. -/
theorem rule?_eq_iff {other : Rule} : token.kind.rule? = some other ↔ rule = other := by
  rw [Rule.rule?_of_kindOf? h.kind_eq, Option.some.injEq]

/-- A name has the kind of its text. -/
theorem kind_eq_ofWord (hname : isName token.text = true) : token.kind = .ofWord token.text := by
  obtain rfl := h.isName_iff.1 hname
  exact (Option.some.inj h.kind_eq).symm

/-- A token is a keyword if its text is reserved. -/
theorem isKeyword_iff : token.kind.isKeyword = true ↔ ∃ word, Keyword.ofText? token.text = some word := by
  rw [← Option.isSome_iff_exists]
  constructor
  · intro hkeyword
    have hname := h.isName_iff.2 (h.rule?_eq_iff.1 (Kind.rule?_eq_word_iff.2 (.inl hkeyword)))
    rwa [h.kind_eq_ofWord hname, Kind.isKeyword_ofWord] at hkeyword
  · intro hreserved
    obtain ⟨word, hword⟩ := Option.isSome_iff_exists.1 hreserved
    rwa [h.kind_eq_ofWord (Keyword.isName_of_ofText? hword), Kind.isKeyword_ofWord]

/-- Where the kinds of a rule are looked up, and only texts that this rule takes are found, the look-up makes the
tokens of the rule and no others. -/
theorem map_spanning_eq {α : Type} {lookup : List Char → Option α} {toKind : α → Kind} {other : Rule}
    (hkind : ∀ text, other.kindOf? text = (lookup text).map toKind)
    (honly : ∀ symbol, lookup token.text = some symbol → rule = other) :
    (lookup token.text).map (fun symbol => spanning (toKind symbol) token.text token.start) =
      if token.kind.rule? = some other then some token else none := by
  have hsame := h.kind_eq
  cases hfound : lookup token.text with
  | some symbol =>
    obtain rfl := honly symbol hfound
    rw [hkind, hfound] at hsame
    rw [if_pos (h.rule?_eq_iff.2 rfl), Option.map_some, Option.some.inj hsame, ← h.spans]
  | none =>
    refine (if_neg fun hrule => ?_).symm
    obtain rfl := h.rule?_eq_iff.1 hrule
    rw [hkind, hfound] at hsame
    cases hsame

/-- From the text of an operator the token is made as an operator, and from no other text. -/
theorem ofOperator?_eq : ofOperator? token.text token.start = if token.kind.isOperator then some token else none := by
  obtain ⟨reading, htakes⟩ := h.takes
  have hmade := h.map_spanning_eq (fun _ => rfl) fun _ => Rule.eq_operator_of_ofText? htakes
  simp only [Kind.rule?_eq_operator_iff] at hmade
  exact hmade

/-- From the text of a delimiter the token is made as a delimiter, and from no other text. -/
theorem ofDelimiter?_eq :
    ofDelimiter? token.text token.start = if token.kind.isDelimiter then some token else none := by
  obtain ⟨reading, htakes⟩ := h.takes
  have hmade := h.map_spanning_eq (fun _ => rfl) fun _ => Rule.eq_delimiter_of_ofText? htakes
  simp only [Kind.rule?_eq_delimiter_iff] at hmade
  exact hmade

end IsTakenBy

end Token

/-! ### Tokens of a scan -/

/-- A token of a scan that has a text is taken by a rule from the source at its start. -/
theorem exists_isTakenBy_of_mem_tokensOf {source : List Char} {token : Token} (h : token ∈ tokensOf source)
    (hkind : token.kind.isSynthetic = false) :
    ∃ rest rule, dropBytes? token.start.index source = some rest ∧ token.IsTakenBy rule rest := by
  rw [tokensOf_eq_run] at h
  rcases List.mem_append.1 h with hrun | hfinish
  · obtain ⟨event, hevent, htoken⟩ := List.mem_filterMap.1 hrun
    obtain ⟨earlier, state, new, next, hsteps, hmove, hnew⟩ :=
      (ScanState.steps_run (.initial source)).exists_moves_of_mem hevent
    obtain ⟨before, hsource, hmark⟩ := (ScanState.Tracks.of_steps hsteps).cut
    have hrest : dropBytes? state.position.index source = some state.rest := by
      rw [hsource, hmark.index_eq]
      exact dropBytes?_append before state.rest
    cases hmove.yielded_of_mem (List.mem_filterMap.2 ⟨event, hnew, htoken⟩) with
    | layout hlayout => rcases hlayout with rfl | rfl <;> cases hkind
    | newline hlexeme =>
      obtain ⟨rule, htaken⟩ := Token.IsTakenBy.exists_of_lineEnd hlexeme state.position
      exact ⟨state.rest, rule, hrest, htaken⟩
    | word hlexeme =>
      obtain ⟨rule, htaken⟩ := Token.IsTakenBy.exists_of_classify hlexeme state.position
      exact ⟨state.rest, rule, hrest, htaken⟩
  · obtain ⟨kind, hsynthetic, rfl⟩ := ScanState.exists_synthetic_of_mem_finish hfinish
    exact absurd hsynthetic (Bool.eq_false_iff.1 hkind)

/-- Every token of a scan that has a text is made again: by reading the source from its start on, and from its text as
a name, an operator or a delimiter, if it has a kind of these. From the texts of all other tokens nothing is made as
an operator or as a delimiter, and they do not have the shape of names. -/
theorem tokens_made_again {source : List Char} {token : Token} (h : token ∈ tokensOf source)
    (hkind : token.kind.isSynthetic = false) :
    (∃ rest, dropBytes? token.start.index source = some rest ∧ tokenAt? rest token.start = some token) ∧
      (token.kind.isKeyword = true ∨ token.kind = .identifier ↔ Token.isName token.text = true) ∧
      (Token.isName token.text = true → Token.ofWord token.text token.start = token) ∧
      (token.kind.isKeyword = true ↔ ∃ word, Keyword.ofText? token.text = some word) ∧
      (Token.ofOperator? token.text token.start = if token.kind.isOperator then some token else none) ∧
      Token.ofDelimiter? token.text token.start = if token.kind.isDelimiter then some token else none := by
  obtain ⟨rest, rule, hrest, htaken⟩ := exists_isTakenBy_of_mem_tokensOf h hkind
  refine ⟨⟨rest, hrest, htaken.reads⟩, ?_, fun hname => ?_, htaken.isKeyword_iff, htaken.ofOperator?_eq,
    htaken.ofDelimiter?_eq⟩
  · rw [← Kind.rule?_eq_word_iff, htaken.rule?_eq_iff, htaken.isName_iff]
  · rw [Token.ofWord, ← htaken.kind_eq_ofWord hname, ← htaken.spans]

/-- An operator that another one is the front of, behind a character of two bytes that starts no lexeme. -/
theorem tokens_made_again_of_power :
    ⟨.operator .power, "**".toList, ⟨1, 3, 4⟩, ⟨1, 5, 6⟩⟩ ∈ tokensOf "x é**=3".toList ∧
      (∃ rest, dropBytes? 4 "x é**=3".toList = some rest ∧
        tokenAt? rest ⟨1, 3, 4⟩ = some ⟨.operator .power, "**".toList, ⟨1, 3, 4⟩, ⟨1, 5, 6⟩⟩) ∧
      Token.isName "**".toList = false ∧
      Token.ofOperator? "**".toList ⟨1, 3, 4⟩ = some ⟨.operator .power, "**".toList, ⟨1, 3, 4⟩, ⟨1, 5, 6⟩⟩ ∧
      Token.ofDelimiter? "**".toList ⟨1, 3, 4⟩ = none := by
  have h : ⟨.operator .power, "**".toList, ⟨1, 3, 4⟩, ⟨1, 5, 6⟩⟩ ∈ tokensOf "x é**=3".toList := by
    rw [tokensOf_eq_runFor]
    decide +kernel
  obtain ⟨hread, hname, -, -, hoperator, hdelimiter⟩ := tokens_made_again h rfl
  exact ⟨h, hread, Bool.eq_false_iff.2 fun hshape => absurd (hname.2 hshape) (by decide), hoperator, hdelimiter⟩

end Offside
