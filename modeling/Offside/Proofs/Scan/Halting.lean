import Offside.Proofs.Scan.Steps

/-!
# Where a scan halts

Faults of lexemes are recovered from. Only a line that fits no open block halts a scan. The fault that it
reports is then the last one and the only fatal one, it is placed where the scan has come to, and there is
text left.

A scan never takes more than two steps for each character and one more, so it can be followed by counting
steps down.
-/

namespace Offside

/-- A fault of a lexeme is recovered from. -/
theorem recoverable_of_classify {window text : List Char} {fault : Fault}
    (h : classify window = some ⟨.fault fault, text⟩) : fault.isFatal = false := by
  rcases classify_cases h with ⟨rule, happly, -⟩ | ⟨c, cs, -, -, heq⟩
  · cases Rule.takes_of_apply happly with
    | unclosed hwindow hquote hopen => rfl
  · cases heq
    rfl

namespace ScanState

/-- A scan has reported a fatal fault only if it has halted, and then as its last one. -/
structure HaltsAtFatal (events : List Event) (state : ScanState) : Prop where
  running : state.mode ≠ .halted → ∀ error ∈ Event.errors events, error.isFatal = false
  halted : state.mode = .halted → state.rest ≠ [] ∧
    ∃ earlier error, Event.errors events = earlier ++ [error] ∧
      (∃ width expected, error = ⟨.inconsistentDedent width expected, state.position⟩) ∧
      ∀ other ∈ earlier, other.isFatal = false

/-- No move starts from where a scan has halted. -/
theorem Moves.mode_ne_halted {state next : ScanState} {events : List Event}
    (h : state.Moves events next) : state.mode ≠ .halted := by
  intro hhalted
  cases h <;> simp_all

/-- A move reports a fatal fault only by halting. -/
theorem HaltsAtFatal.move {events new : List Event} {state next : ScanState}
    (h : HaltsAtFatal events state) (hmove : state.Moves new next) :
    HaltsAtFatal (events ++ new) next := by
  have hearlier := h.running hmove.mode_ne_halted
  cases hmove with
  | skipsInMargin hmode hlexeme htrivia =>
    refine ⟨fun _ => by simpa using hearlier, fun hhalted => ?_⟩
    simp only [past, marginBehind] at hhalted
    split at hhalted <;> cases hhalted
  | misfits hmode hlexeme htrivia hblocks hclosed hkept hnarrow herror =>
    refine ⟨fun hrunning => absurd rfl hrunning, fun _ => ⟨(isFront_of_classify hlexeme).window_ne_nil, ?_⟩⟩
    refine ⟨Event.errors events, _, by simp, ⟨_, _, herror⟩, hearlier⟩
  | reports hmode hlexeme =>
    refine ⟨fun _ => ?_, fun hhalted => by cases hhalted⟩
    rw [Event.errors_append]
    intro error hmem
    rcases List.mem_append.1 hmem with hmem | hmem
    · exact hearlier error hmem
    · obtain rfl : error = _ := by simpa using hmem
      exact recoverable_of_classify hlexeme
  | _ => exact ⟨fun _ => by simpa using hearlier, fun hhalted => by cases hhalted⟩

/-- In every state of a scan, a fatal fault was reported only if the scan has halted. -/
theorem haltsAtFatal_of_steps {source : List Char} {events : List Event} {state : ScanState}
    (h : Steps (initial source) events state) : HaltsAtFatal events state := by
  induction h with
  | refl => exact ⟨fun _ error hmem => (List.not_mem_nil hmem).elim, fun hhalted => by cases hhalted⟩
  | tail _ hstep ih => exact ih.move (moves_of_step hstep)

end ScanState

/-- The faults of a scan are those of its run. -/
theorem faultsOf_eq_run (source : List Char) :
    faultsOf source = Event.errors (ScanState.initial source).run.1 := by
  rw [faultsOf_eq, Scan.errors, Scan.ofSource]
  simp

/-- The tokens of a scan are those of its run, and behind them those that end it. -/
theorem tokensOf_eq_run (source : List Char) :
    tokensOf source = Event.tokens (ScanState.initial source).run.1 ++
      Event.tokens (ScanState.initial source).run.2.finish := by
  rw [tokensOf_eq, Scan.tokens, Scan.ofSource, Event.tokens_append]

/-- A run over a text takes two steps for each character and one more at most. -/
theorem run_initial_eq_runFor (source : List Char) :
    (ScanState.initial source).run = (ScanState.initial source).runFor (2 * source.length + 1) :=
  ScanState.run_eq_runFor (Nat.le_refl _)

/-- The faults of a scan are found by counting its steps down. -/
theorem faultsOf_eq_runFor (source : List Char) :
    faultsOf source = Event.errors ((ScanState.initial source).runFor (2 * source.length + 1)).1 := by
  rw [faultsOf_eq_run, run_initial_eq_runFor]

/-- The tokens of a scan are found by counting its steps down. -/
theorem tokensOf_eq_runFor (source : List Char) :
    tokensOf source = Event.tokens ((ScanState.initial source).runFor (2 * source.length + 1)).1 ++
      Event.tokens ((ScanState.initial source).runFor (2 * source.length + 1)).2.finish := by
  rw [tokensOf_eq_run, run_initial_eq_runFor]

/-- Where no further step is, the tokens and faults are those left behind so far, and those that end the
scan. -/
theorem eq_of_steps_of_step_eq_none {source : List Char} {events : List Event} {state : ScanState}
    (hsteps : ScanState.Steps (.initial source) events state) (hstep : state.step = none) :
    tokensOf source = Event.tokens events ++ Event.tokens state.finish ∧
      faultsOf source = Event.errors events := by
  rw [tokensOf_eq_run, faultsOf_eq_run, hsteps.run_eq, ScanState.run_of_step_eq_none hstep,
    List.append_nil]
  exact ⟨rfl, rfl⟩

/-- Where no line misfits, the scan reads the whole text and only reports faults that it recovers from. -/
theorem runs_to_end {source : List Char}
    (h : ∀ position width expected, ⟨.inconsistentDedent width expected, position⟩ ∉ faultsOf source) :
    (ScanState.initial source).run.2.rest = [] ∧ ∀ error ∈ faultsOf source, error.isFatal = false := by
  have hhalts := ScanState.haltsAtFatal_of_steps (ScanState.steps_run (.initial source))
  have hrunning : (ScanState.initial source).run.2.mode ≠ .halted := by
    intro hhalted
    obtain ⟨-, earlier, error, herrors, ⟨width, expected, rfl⟩, -⟩ := hhalts.halted hhalted
    refine h (ScanState.initial source).run.2.position width expected ?_
    rw [faultsOf_eq_run, herrors]
    exact List.mem_append_right _ (List.mem_singleton_self _)
  rw [faultsOf_eq_run]
  exact ⟨(ScanState.rest_eq_nil_or_halted source).resolve_right hrunning, hhalts.running hrunning⟩

/-- Where a line misfits, the scan ends in front of its first token or fault, with this fault as its last
one. -/
theorem halts_at_misfit {source : List Char} {position : Position} {width : Nat} {expected : List Nat}
    (h : ⟨.inconsistentDedent width expected, position⟩ ∈ faultsOf source) :
    (ScanState.initial source).run.2.mode = .halted ∧
      (ScanState.initial source).run.2.rest ≠ [] ∧
      (ScanState.initial source).run.2.position = position ∧
      ∃ earlier, faultsOf source = earlier ++ [⟨.inconsistentDedent width expected, position⟩] ∧
        ∀ other ∈ earlier, other.isFatal = false := by
  have hhalts := ScanState.haltsAtFatal_of_steps (ScanState.steps_run (.initial source))
  rw [faultsOf_eq_run] at h ⊢
  have hhalted : (ScanState.initial source).run.2.mode = .halted := by
    by_contra hrunning
    exact absurd (hhalts.running hrunning _ h) (by simp [LocatedFault.isFatal, Fault.isFatal])
  obtain ⟨hrest, earlier, error, herrors, ⟨width', expected', herror⟩, hearlier⟩ := hhalts.halted hhalted
  have hsame : ⟨.inconsistentDedent width expected, position⟩ = error := by
    rw [herrors] at h
    rcases List.mem_append.1 h with hmem | hmem
    · exact absurd (hearlier _ hmem) (by simp [LocatedFault.isFatal, Fault.isFatal])
    · exact List.mem_singleton.1 hmem
  refine ⟨hhalted, hrest, ?_, earlier, by rw [herrors, hsame], hearlier⟩
  rw [herror] at hsame
  exact (congrArg LocatedFault.position hsame).symm

end Offside
