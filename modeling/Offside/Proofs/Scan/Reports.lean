import Offside.Proofs.Lexeme.Longest
import Offside.Proofs.Lexeme.RuleOrder
import Offside.Proofs.Scan.Faults
import Offside.Proofs.Scan.Order

/-!
# What faults say, and in which order

A fault says something of the text in front of which it is reported, in terms of that text alone. An unrecognised
character begins no lexeme, but for an exclamation mark that no equals sign follows. An open string begins no
literal, and no block either. A margin that misfits ends at a character, and at no comment.

A scan goes on behind each fault but the last, and no token goes over one. So the faults come in the order of the
text, and none is inside of a token.
-/

namespace Offside

open Text Lexeme

/-- What a fault says of the text in front of which it is found. -/
def Fault.Describes (rest : List Char) : Fault → Prop
  | .unrecognisedCharacter c =>
    ∃ after, rest = c :: after ∧
      ((∀ rule : Rule, rule.opensWith c = false) ∨ c = '!' ∧ after.head? ≠ some '=')
  | .unterminatedString quote =>
    isQuote quote = true ∧ [quote] <+: rest ∧ ¬ [quote, quote, quote] <+: rest ∧
      ∀ text, text <+: rest → ¬ IsLiteral quote text
  | .inconsistentDedent _ _ =>
    ∃ c after, rest = c :: after ∧ isBlank c = false ∧ isLineEnd c = false ∧ c ≠ '#' ∧ ¬ OpensBlock rest

namespace Rule

/-- A character that opens operators is one itself, but for the exclamation mark. -/
theorem isOperator_of_opensWith {c : Char} (h : Rule.operator.opensWith c = true) :
    c = '!' ∨ ∃ symbol, Operator.ofText? [c] = some symbol := by
  have htable : (Rule.operator.openings.all fun c => c == '!' || (Operator.ofText? [c]).isSome) = true := by decide
  have hentry := List.all_eq_true.1 htable c (mem_openings (by decide) (by decide) h)
  simpa [Option.isSome_iff_exists] using hentry

/-- A character that opens delimiters is one itself. -/
theorem isDelimiter_of_opensWith {c : Char} (h : Rule.delimiter.opensWith c = true) :
    ∃ symbol, Delimiter.ofText? [c] = some symbol := by
  have htable : (Rule.delimiter.openings.all fun c => (Delimiter.ofText? [c]).isSome) = true := by decide
  exact Option.isSome_iff_exists.1 (List.all_eq_true.1 htable c (mem_openings (by decide) (by decide) h))

/-- Where no rule takes anything, the first character opens no rule, unless it is an exclamation mark without an
equals sign behind it. -/
theorem opensWith_eq_false_or {c : Char} {cs : List Char} (h : ∀ rule, Rule.apply (c :: cs) rule = none) :
    (∀ rule : Rule, rule.opensWith c = false) ∨ c = '!' ∧ cs.head? ≠ some '=' := by
  have hoperator : ∀ front symbol, front <+: c :: cs → Operator.ofText? front ≠ some symbol := by
    intro front symbol hfront hsymbol
    obtain ⟨found, hfound, -⟩ := exists_operator?_of_ofText? hfront hsymbol
    simpa [apply, hfound] using h .operator
  have hquote : isQuote c = false := by
    by_contra hquote
    rw [Bool.not_eq_false] at hquote
    simpa [h .string] using isSome_apply_string hquote cs
  by_cases hmark : c = '!'
  · subst hmark
    refine .inr ⟨rfl, fun hhead => ?_⟩
    obtain ⟨after, rfl⟩ := List.head?_eq_some_iff.1 hhead
    exact hoperator ['!', '='] .notEquals ⟨after, rfl⟩ (by decide)
  refine .inl fun rule => ?_
  by_contra hopens
  rw [Bool.not_eq_false] at hopens
  have hnone := h rule
  cases rule with
  | blank => simp [apply, blank?, nonempty?, show isBlank c = true from hopens] at hnone
  | lineEnd => exact lineEnd?_ne_none hopens cs (Option.map_eq_none_iff.1 hnone)
  | comment =>
    obtain rfl : c = '#' := by simpa [opensWith, hquote] using hopens
    cases hnone
  | string => exact absurd hopens (by simp [opensWith, hquote])
  | number => simp [apply, number?, nonempty?, show c.isDigit = true from hopens] at hnone
  | word => simp [apply, word?, show isNameStart c = true from hopens] at hnone
  | operator =>
    obtain ⟨symbol, hsymbol⟩ := (isOperator_of_opensWith hopens).resolve_left hmark
    exact hoperator [c] symbol ⟨cs, rfl⟩ hsymbol
  | delimiter =>
    obtain ⟨symbol, hsymbol⟩ := isDelimiter_of_opensWith hopens
    obtain ⟨found, hfound, -⟩ := @exists_delimiter?_of_ofText? (c :: cs) [c] symbol ⟨cs, rfl⟩ hsymbol
    simp [apply, hfound] at hnone

end Rule

/-- A fault of a lexeme describes the text that the lexeme is read from. -/
theorem describes_of_classify_fault {rest text : List Char} {fault : Fault}
    (h : classify rest = some ⟨.fault fault, text⟩) : fault.Describes rest := by
  rcases classify_cases h with ⟨rule, happly, hcomment⟩ | ⟨c, cs, rfl, hnone, heq⟩
  · cases Rule.takes_of_apply happly with
    | @unclosed quote cs hwindow hquote hopen =>
      subst hwindow
      have hblock := (comment?_eq_none_iff hquote cs).1 (hcomment rfl)
      refine ⟨hquote, ⟨cs, rfl⟩, fun hthree => hblock (List.cons_prefix_cons.1 hthree).2, ?_⟩
      exact (closeString?_eq_none_iff (ne_backslash_of_isQuote hquote)).1 hopen
  · cases heq
    exact ⟨cs, rfl, Rule.opensWith_eq_false_or hnone⟩

/-- A margin that misfits is left in front of a token or a fault, and that is all that its fault says of the text. -/
theorem describes_misfit {rest : List Char} {lexeme : Lexeme} (h : classify rest = some lexeme)
    (htrivia : lexeme.reading.isTrivia = false) (width : Nat) (expected : List Nat) :
    (Fault.inconsistentDedent width expected).Describes rest := by
  obtain ⟨c, after, rfl⟩ := List.exists_cons_of_ne_nil (isFront_of_classify h).window_ne_nil
  have hcomment := @Rule.apply_eq_none_of_mem_trivia .comment _ _ (by decide) h htrivia
  refine ⟨c, after, rfl, isBlank_eq_false_of_classify h htrivia, isLineEnd_eq_false_of_classify h htrivia, ?_, ?_⟩
  · rintro rfl
    cases hcomment
  · intro hblock
    simpa [hcomment] using (Rule.isSome_apply_iff hblock .comment).2 (.inl rfl)

namespace ScanState

variable {state next : ScanState} {events new : List Event} {error : LocatedFault}

/-- A move reports faults that describe the text in front of which it is made. -/
theorem Moves.describes_of_mem (h : state.Moves events next) (hmem : error ∈ Event.errors events) :
    error.fault.Describes state.rest := by
  cases h with
  | misfits hmode hlexeme htrivia hblocks hclosed hkept hnarrow herror =>
    obtain rfl : error = _ := by simpa using hmem
    rw [herror]
    exact describes_misfit hlexeme htrivia _ _
  | reports hmode hlexeme =>
    obtain rfl : error = _ := by simpa using hmem
    exact describes_of_classify_fault hlexeme
  | _ => simp at hmem

/-- Every fault that a scan has reported describes the text from its place on. -/
theorem Steps.describes_of_mem {source : List Char} (h : Steps (initial source) events state)
    (hmem : error ∈ Event.errors events) :
    ∃ rest, dropBytes? error.position.index source = some rest ∧ error.fault.Describes rest := by
  obtain ⟨earlier, middle, new, next, hsteps, hmove, hnew⟩ := h.exists_moves_of_error hmem
  obtain ⟨before, hsource, hmark⟩ := (Tracks.of_steps hsteps).cut
  refine ⟨middle.rest, ?_, hmove.describes_of_mem hnew⟩
  rw [(hmove.exists_lexeme_of_mem hnew).1, hmark.index_eq, hsource]
  exact dropBytes?_append before middle.rest

/-- A move reports no fault, or it reports one where it is made and yields no token with a text. Behind that fault
the scan goes on or has halted. -/
theorem Moves.errors_cases (h : state.Moves new next) :
    Event.errors new = [] ∨
      ∃ error, Event.errors new = [error] ∧ error.position = state.position ∧
        (∀ token ∈ Event.tokens new, token.kind.isSynthetic = true) ∧
        (next.mode = .halted ∨ state.position.index < next.position.index) := by
  cases h with
  | @misfits measured lexeme closed kept error hmode hlexeme htrivia hblocks hclosed hkept hnarrow herror =>
    refine .inr ⟨error, by simp, by rw [herror], fun token hmem => ?_, .inl rfl⟩
    obtain ⟨-, rfl⟩ : closed ≠ [] ∧ token = .synthetic .dedent state.position := by simpa using hmem
    rfl
  | @reports depth fault text hmode hlexeme =>
    refine .inr ⟨⟨fault, state.position⟩, rfl, rfl, fun token hmem => ?_, .inr (index_lt_past hlexeme _)⟩
    cases hmem
  | _ => exact .inl (by simp)

/-- The faults reported so far come one behind the other, all in front of where the scan goes on, and outside of the
tokens that have a text. -/
structure ReportsInOrder (events : List Event) (state : ScanState) : Prop where
  increasing : (Event.errors events).Pairwise fun a b => a.position.index < b.position.index
  behind : state.mode ≠ .halted → ∀ error ∈ Event.errors events, error.position.index < state.position.index
  apart : ∀ error ∈ Event.errors events, ∀ token ∈ Event.tokens events, token.kind.isSynthetic = false →
    token.stop.index ≤ error.position.index ∨ error.position.index < token.start.index

/-- Every move reports in order, where all that was left behind stands in front of it. -/
theorem ReportsInOrder.move {first : Nat} (h : ReportsInOrder events state)
    (hbetween : Between first state.position.index events) (hmove : state.Moves new next) :
    ReportsInOrder (events ++ new) next where
  increasing := by
    rw [Event.errors_append]
    rcases hmove.errors_cases with hnone | ⟨error, herrors, hposition, -⟩
    · rw [hnone, List.append_nil]
      exact h.increasing
    · rw [herrors, List.pairwise_append]
      refine ⟨h.increasing, List.pairwise_singleton _ _, fun earlier hearlier later hlater => ?_⟩
      rw [List.mem_singleton.1 hlater, hposition]
      exact h.behind hmove.mode_ne_halted earlier hearlier
  behind := fun hrunning error hmem => by
    rw [Event.errors_append] at hmem
    rcases List.mem_append.1 hmem with hmem | hmem
    · exact (h.behind hmove.mode_ne_halted error hmem).trans_le hmove.between.le
    · rcases hmove.errors_cases with hnone | ⟨other, herrors, hposition, -, hhalted | hgoes⟩
      · rw [hnone] at hmem
        cases hmem
      · exact absurd hhalted hrunning
      · rw [herrors] at hmem
        rw [List.mem_singleton.1 hmem, hposition]
        exact hgoes
  apart := fun error herror token htoken hkind => by
    rw [Event.errors_append] at herror
    rw [Event.tokens_append] at htoken
    rcases List.mem_append.1 herror with herror | herror <;> rcases List.mem_append.1 htoken with htoken | htoken
    · exact h.apart error herror token htoken hkind
    · have hbehind := h.behind hmove.mode_ne_halted error herror
      exact .inr (hbehind.trans_le (hmove.between.tokens token htoken).1)
    · rw [(hmove.exists_lexeme_of_mem herror).1]
      exact .inl (hbetween.tokens token htoken).2.1
    · rcases hmove.errors_cases with hnone | ⟨other, -, -, hsynthetic, -⟩
      · rw [hnone] at herror
        cases herror
      · rw [hsynthetic token htoken] at hkind
        cases hkind

/-- Every state of a scan has reported in order. -/
theorem ReportsInOrder.of_steps {source : List Char} (h : Steps (initial source) events state) :
    ReportsInOrder events state := by
  induction h with
  | refl =>
    exact ⟨.nil, fun _ _ hmem => (List.not_mem_nil hmem).elim, fun _ hmem => (List.not_mem_nil hmem).elim⟩
  | tail hsteps hstep ih => exact ih.move hsteps.between (moves_of_step hstep)

end ScanState

/-- The faults of a text come in its order, each behind the one before it. None is inside of a token that has a text,
and each describes the text from its place on. -/
theorem faults_describe_source (source : List Char) :
    (faultsOf source).Pairwise (fun a b => a.position.index < b.position.index) ∧
      (∀ error ∈ faultsOf source, ∀ token ∈ tokensOf source, token.kind.isSynthetic = false →
        ¬ (token.start.index ≤ error.position.index ∧ error.position.index < token.stop.index)) ∧
      ∀ error ∈ faultsOf source,
        ∃ rest, dropBytes? error.position.index source = some rest ∧ error.fault.Describes rest := by
  have hsteps := ScanState.steps_run (.initial source)
  have horder := ScanState.ReportsInOrder.of_steps hsteps
  rw [faultsOf_eq_run, tokensOf_eq_run]
  refine ⟨horder.increasing, fun error herror token htoken hkind hinside => ?_,
    fun error herror => hsteps.describes_of_mem herror⟩
  rcases List.mem_append.1 htoken with htoken | htoken
  · have hapart := horder.apart error herror token htoken hkind
    omega
  · obtain ⟨kind, hsynthetic, rfl⟩ := ScanState.exists_synthetic_of_mem_finish htoken
    exact absurd hsynthetic (Bool.eq_false_iff.1 hkind)

end Offside
