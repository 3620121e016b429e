import Mathlib.Data.List.Basic
import Offside.CommandLine.Run
import Offside.Proofs.Diagnostic
import Offside.Proofs.Lexeme.Shapes

/-!
# What a run of the program tells

A run lists the tokens of its source on standard output, unless it is quiet, and draws the faults on standard
error. It succeeds when there are no faults.

It goes through all faults if a caret can be drawn under each of them. A fault that is too far to the right on its
line stops the run: the tokens are listed by then, and the faults in front of it are drawn, but it is drawn without a
caret, and those behind it are not drawn at all.

The check of shapes finds nothing, since every token of an analysis is well shaped. A run that checks is therefore
a run that does not.
-/

namespace Offside

open Text

/-! ### Printouts -/

namespace Printout

variable {before : List Printout} {printout : Printout}

/-- Printouts that do not break off are followed by the others. -/
theorem sequence_append (h : ∀ printout ∈ before, printout.isWhole = true) (later : List Printout) :
    (sequence (before ++ later)).isWhole = (sequence later).isWhole ∧
      (sequence (before ++ later)).text = String.join (before.map text) ++ (sequence later).text := by
  induction before with
  | nil => exact ⟨rfl, (String.empty_append).symm⟩
  | cons first before ih =>
    obtain ⟨hwhole, htext⟩ := ih fun printout hmem => h printout (List.mem_cons_of_mem _ hmem)
    rw [List.cons_append, sequence, if_pos (h first List.mem_cons_self)]
    refine ⟨hwhole, ?_⟩
    rw [text, List.map_append, String.join_append, List.map_cons, String.join_cons, String.append_assoc, ← htext]
    rfl

/-- Nothing follows a printout that breaks off. -/
theorem sequence_cons_of_cutOff (h : printout.isWhole = false) (later : List Printout) :
    sequence (printout :: later) = printout := by
  rw [sequence, h, if_neg Bool.false_ne_true]

end Printout

/-! ### Reports -/

/-- A report has the tokens of its text, and what is printed of its faults. -/
theorem Report.ofSource_eq (source : List Char) (label : String) :
    Report.ofSource source label =
      ⟨tokensOf source, (faultsOf source).map (Diagnostic.print source label)⟩ := by
  rw [Report.ofSource, analyze_eq]
  cases faultsOf source <;> rfl

namespace CommandLine

variable {m : Type → Type} {host : Host m} {options : Options} {label : String} {source : List Char}

/-- What an outcome tells of a source that goes by a name. -/
structure Outcome.Tells (outcome : Outcome) (isQuiet : Bool) (label : String) (source : List Char) : Prop where
  code_eq : outcome.status.code = if (analyze source).isOk then 0 else 1
  stdout_eq : outcome.stdout =
    if isQuiet then "" else String.join ((tokensOf source).map fun token => token.render ++ "\n")
  /-- What is printed of the faults is all that is told of them. -/
  stderr_eq : outcome.stderr =
    String.join ((faultsOf source).map fun error => (Diagnostic.print source label error).text)

/-- What an outcome tells of a source with a fault that stops the run. -/
structure Outcome.BreaksOff (outcome : Outcome) (notice : String) (isQuiet : Bool) (label : String)
    (source : List Char) : Prop where
  code_eq : outcome.status.code = 101
  stdout_eq : outcome.stdout =
    if isQuiet then "" else String.join ((tokensOf source).map fun token => token.render ++ "\n")
  /-- The faults are printed up to the first that is out of reach, and then the notice follows. -/
  stderr_eq : ∃ earlier error later, faultsOf source = earlier ++ error :: later ∧
    (∀ error ∈ earlier, ¬ error.IsOutOfReach source) ∧ error.IsOutOfReach source ∧
    outcome.stderr =
      String.join ((earlier ++ [error]).map fun error => (Diagnostic.print source label error).text) ++ notice

/-! ### Outcomes -/

/-- The options with the check of shapes turned on. -/
def Options.checking (options : Options) : Options :=
  { options with validates := true }

/-- No token of a text is misshapen. -/
theorem filter_misshapen (source : List Char) : (tokensOf source).filter (!·.isWellShaped) = [] := by
  rw [List.filter_eq_nil_iff]
  intro token hmem
  simp [isWellShaped_of_mem_tokensOf hmem]

/-- What happens to a source that was read does not depend on the check of shapes. -/
theorem tokenize_eq (host : Host m) (options : Options) (label : String) (source : List Char) :
    tokenize host options label source =
      let stdout :=
        if options.isQuiet then "" else String.join ((tokensOf source).map fun token => token.render ++ "\n")
      let printout := Printout.sequence ((faultsOf source).map (Diagnostic.print source label))
      if printout.isWhole then
        ⟨if (faultsOf source).isEmpty then .success else .failure, stdout, printout.text⟩
      else ⟨.aborted, stdout, printout.text ++ host.notice⟩ := by
  have hnone : (if options.validates then (tokensOf source).filter (!·.isWellShaped) else []) = [] := by
    rw [filter_misshapen, ite_self]
  rw [tokenize, Report.ofSource_eq]
  dsimp only
  rw [hnone, List.isEmpty_nil, Bool.and_true, List.isEmpty_map, List.map_nil, String.join_nil, String.append_empty]
  rfl

/-- A source without a fault that is out of reach is told of. -/
theorem tells_tokenize (host : Host m) (options : Options) (label : String)
    (h : ∀ error ∈ faultsOf source, ¬ error.IsOutOfReach source) :
    (tokenize host options label source).Tells options.isQuiet label source := by
  have hall : ∀ printout ∈ (faultsOf source).map (Diagnostic.print source label), printout.isWhole = true :=
    List.forall_mem_map.2 fun error hmem => (isWhole_print_iff hmem label).2 (h error hmem)
  obtain ⟨hwhole, htext⟩ := Printout.sequence_append hall []
  rw [List.append_nil] at hwhole htext
  rw [(tokenize_eq host options label source).trans (if_pos hwhole)]
  refine ⟨?_, rfl, ?_⟩
  · rw [isOk_analyze]
    cases (faultsOf source).isEmpty <;> rfl
  · rw [htext, List.map_map]
    exact String.append_empty

/-- A source with a fault that is out of reach breaks a run off. -/
theorem breaksOff_tokenize (host : Host m) (options : Options) (label : String)
    (h : ∃ error ∈ faultsOf source, error.IsOutOfReach source) :
    (tokenize host options label source).BreaksOff host.notice options.isQuiet label source := by
  classical
  have hsome : ((faultsOf source).find? fun error => error.IsOutOfReach source).isSome := by simpa using h
  obtain ⟨error, hfind⟩ := Option.isSome_iff_exists.1 hsome
  obtain ⟨hfirst, earlier, later, hfaults, hearlier⟩ := List.find?_eq_some_iff_append.1 hfind
  have hfar : error.IsOutOfReach source := of_decide_eq_true hfirst
  have hnear : ∀ shown ∈ earlier, ¬ shown.IsOutOfReach source := by simpa using hearlier
  have hall : ∀ printout ∈ earlier.map (Diagnostic.print source label), printout.isWhole = true :=
    List.forall_mem_map.2 fun shown hmem =>
      (isWhole_print_iff (by simp [hfaults, hmem]) label).2 (hnear shown hmem)
  have hbroken : (Diagnostic.print source label error).isWhole = false := by
    rw [Bool.eq_false_iff, Ne, isWhole_print_iff (by simp [hfaults]), not_not]
    exact hfar
  obtain ⟨hwhole, htext⟩ := Printout.sequence_append hall ((error :: later).map (Diagnostic.print source label))
  rw [← List.map_append, ← hfaults, List.map_cons, Printout.sequence_cons_of_cutOff hbroken] at hwhole htext
  have hstop : ¬ (Printout.sequence ((faultsOf source).map (Diagnostic.print source label))).isWhole = true := by
    rw [hwhole, hbroken]
    exact Bool.false_ne_true
  rw [(tokenize_eq host options label source).trans (if_neg hstop)]
  refine ⟨rfl, rfl, earlier, error, later, hfaults, hnear, hfar, ?_⟩
  rw [htext, List.map_append, String.join_append, List.map_map]
  simp [Function.comp_def]

/-- A run tells of its source just if no fault is out of reach, and breaks off just if some fault is. -/
theorem tells_or_breaksOff (host : Host m) (options : Options) (label : String) (source : List Char) :
    ((tokenize host options label source).Tells options.isQuiet label source ↔
      ∀ error ∈ faultsOf source, ¬ error.IsOutOfReach source) ∧
    ((tokenize host options label source).BreaksOff host.notice options.isQuiet label source ↔
      ∃ error ∈ faultsOf source, error.IsOutOfReach source) := by
  -- the numbers of the two ends differ
  have hdiffer : ¬ ((tokenize host options label source).Tells options.isQuiet label source ∧
      (tokenize host options label source).BreaksOff host.notice options.isQuiet label source) := by
    rintro ⟨htells, hbreaks⟩
    have hcode := htells.code_eq
    rw [hbreaks.code_eq] at hcode
    split at hcode <;> cases hcode
  by_cases h : ∃ error ∈ faultsOf source, error.IsOutOfReach source
  · have hbreaks := breaksOff_tokenize host options label h
    have hsome : ¬ ∀ error ∈ faultsOf source, ¬ error.IsOutOfReach source := by simpa using h
    exact ⟨iff_of_false (fun htells => hdiffer ⟨htells, hbreaks⟩) hsome, iff_of_true hbreaks h⟩
  · have hnone : ∀ error ∈ faultsOf source, ¬ error.IsOutOfReach source := by simpa using h
    have htells := tells_tokenize host options label hnone
    exact ⟨iff_of_true htells hnone, iff_of_false (fun hbreaks => hdiffer ⟨htells, hbreaks⟩) h⟩

/-! ### Sources -/

section Sources

variable [Monad m]

/-- A source is supplied, under a name, to a run that is to read a file: as the example, on standard input, or in
the file. -/
inductive Supplies (host : Host m) : Option String → String → List Char → Prop where
  | builtIn : Supplies host none "<example>" exampleSource.toList
  | standardInput {source : List Char} (h : host.read .standardInput = pure (.ok (String.ofList source).toUTF8)) :
    Supplies host (some "-") "<stdin>" source
  | file {path : String} {source : List Char} (hpath : path ≠ "-")
    (h : host.read (.file path) = pure (.ok (String.ofList source).toUTF8)) : Supplies host (some path) path source

/-- The bytes of a text are decoded to the text. -/
theorem decode_toUTF8 (source : List Char) : decode (String.ofList source).toUTF8 = .ok source := by
  have hbytes : String.fromUTF8? (String.ofList source).toUTF8 = some (String.ofList source) :=
    dif_pos (String.ofList source).isValidUTF8
  rw [decode, hbytes]
  exact congrArg _ String.toList_ofList

/-- A file is read under its path, unless that is a single hyphen. -/
theorem load_file {path : String} (hpath : path ≠ "-") (validates isQuiet : Bool) :
    load host ⟨some path, validates, isQuiet⟩ = (do return (path, (← host.read (.file path)) >>= decode)) := by
  rw [load]
  exact hpath

/-- The check of shapes has nothing to do with what is read. -/
theorem load_checking (options : Options) : load host options.checking = load host options := by
  obtain ⟨file | path, validates, isQuiet⟩ := options
  · rfl
  · by_cases hpath : path = "-"
    · subst hpath
      rfl
    · rw [Options.checking, load_file hpath, load_file hpath]

/-- A source that is supplied is read, with its name. -/
theorem load_of_supplies [LawfulMonad m] (h : Supplies host options.file label source) :
    load host options = pure (label, .ok source) := by
  obtain ⟨file, validates, isQuiet⟩ := options
  cases h with
  | builtIn => rfl
  | standardInput h =>
    rw [load, h, pure_bind]
    exact congrArg (fun answer => pure ("<stdin>", answer)) (decode_toUTF8 source)
  | file hpath h =>
    rw [load_file hpath, h, pure_bind]
    exact congrArg (fun answer => pure (label, answer)) (decode_toUTF8 source)

omit [Monad m] in
/-- A run that checks shapes ends like one that does not. -/
theorem conclude_checking (host : Host m) (options : Options) :
    conclude host options.checking = conclude host options := by
  funext loaded
  obtain ⟨label, failure | source⟩ := loaded
  · rfl
  · rw [conclude, conclude, tokenize_eq, tokenize_eq host options]
    rfl

/-- A run tells of the source that it reads, unless a fault of the source is out of reach; then it breaks off behind
the list of the tokens and the faults up to that one. It does the same when it checks shapes too, since nothing is
misshapen in any source. -/
theorem run_tells_source [LawfulMonad m] (host : Host m) (options : Options) :
    (∃ told : String × Except ReadFailure (List Char) → Outcome, run host options = told <$> load host options ∧
      ∀ label source,
        ((told (label, .ok source)).Tells options.isQuiet label source ↔
          ∀ error ∈ faultsOf source, ¬ error.IsOutOfReach source) ∧
        ((told (label, .ok source)).BreaksOff host.notice options.isQuiet label source ↔
          ∃ error ∈ faultsOf source, error.IsOutOfReach source)) ∧
    (∀ label source, Supplies host options.file label source → load host options = pure (label, .ok source)) ∧
    run host options.checking = run host options ∧
    ∀ source, ∀ token ∈ tokensOf source, token.isWellShaped = true := by
  refine ⟨⟨conclude host options, (map_eq_pure_bind _ _).symm, tells_or_breaksOff host options⟩,
    fun label source => load_of_supplies, ?_, fun source token => isWellShaped_of_mem_tokensOf⟩
  rw [run, run, conclude_checking, load_checking]

end Sources

/-- A host with a text on standard input, and without files. -/
def hostOf (source : List Char) : Host Id where
  read
    | .standardInput => pure (.ok (String.ofList source).toUTF8)
    | .file _ => pure (.error (.system "No such file or directory" 2))
  warning token := "WARN token failed shape validation token=" ++ token.render ++ "\n"
  notice := "Formatting argument out of range\n"

/-- With the check asked for, a literal that is not closed on standard input. -/
theorem run_tells_source_of_unclosed :
    ∃ outcome : Outcome, run (hostOf "x = 'é\n".toList) ⟨some "-", true, true⟩ = pure outcome ∧
      outcome.Tells true "<stdin>" "x = 'é\n".toList := by
  obtain ⟨⟨told, hrun, htold⟩, hload, hcheck, -⟩ :=
    run_tells_source (hostOf "x = 'é\n".toList) ⟨some "-", false, true⟩
  have hnear : ∀ error ∈ faultsOf "x = 'é\n".toList, error.position.column < Excerpt.maxPadding := by
    rw [faultsOf_eq_runFor]
    decide +kernel
  refine ⟨_, ?_, (htold "<stdin>" _).1.2 fun error hmem => not_isOutOfReach_of_lt (hnear error hmem)⟩
  exact hcheck.trans (hrun.trans (by rw [hload "<stdin>" _ (.standardInput rfl), map_pure]))

/-! ### A fault that is out of reach -/

/-- A name of some letters, and behind it a character that nothing starts with. -/
def longLine (letters : Nat) : List Char :=
  List.replicate letters 'a' ++ ['?']

section LongLines

variable (letters : Nat)

/-- A name is read as far as it goes. -/
theorem classify_longLine : classify (longLine (letters + 1)) =
    some ⟨.token (.ofWord (List.replicate (letters + 1) 'a')), List.replicate (letters + 1) 'a'⟩ := by
  have hname : ∀ c ∈ List.replicate letters 'a', isNameChar c = true := by
    intro c hc
    rw [List.eq_of_mem_replicate hc]
    decide
  have hword : Lexeme.word? (longLine (letters + 1)) = some (List.replicate (letters + 1) 'a') :=
    Lexeme.word?_of_name (by decide) hname (forall_head?_cons (by decide) [])
  have happly : Rule.apply (longLine (letters + 1)) .word =
      some ⟨.token (.ofWord (List.replicate (letters + 1) 'a')), List.replicate (letters + 1) 'a'⟩ := by
    rw [Rule.apply, hword]
    rfl
  exact classify_of_apply happly fun hstring => by cases hstring

/-- The character behind the name is a fault. -/
theorem mem_faultsOf_longLine :
    ⟨.unrecognisedCharacter '?', Position.start.advanceOver (List.replicate (letters + 1) 'a')⟩ ∈
      faultsOf (longLine (letters + 1)) := by
  let word := List.replicate (letters + 1) 'a'
  let first : ScanState := ⟨longLine (letters + 1), .start, [], .line 0⟩
  let second := first.past word (.line ((Kind.ofWord word).nest 0))
  have henter : (ScanState.initial (longLine (letters + 1))).step = some ([], first) :=
    @ScanState.step_of_proper _ none _ rfl (classify_longLine letters) rfl
  have hword : first.step = some (first.readLine 0 ⟨.token (.ofWord word), word⟩) :=
    ScanState.step_of_line rfl (classify_longLine letters)
  have hrest : second.rest = ['?'] := List.drop_left
  have hfault : second.step = some _ := ScanState.step_of_line rfl (by rw [hrest]; rfl)
  have hread : ScanState.Steps first _ second := .single hword
  have hsteps := ((ScanState.Steps.single henter).trans hread).trans (.single hfault)
  rw [faultsOf_eq_run, hsteps.run_eq, Event.errors_append, Event.errors_append]
  exact List.mem_append_left _ (List.mem_append_right _ (List.mem_singleton_self _))

/-- The fault behind the name is out of reach if the name is too long. -/
theorem isOutOfReach_longLine (h : Excerpt.maxPadding ≤ letters + 1) :
    LocatedFault.IsOutOfReach
      ⟨.unrecognisedCharacter '?', Position.start.advanceOver (List.replicate (letters + 1) 'a')⟩
      (longLine (letters + 1)) := by
  have hopen : openLine (List.replicate (letters + 1) 'a') = List.replicate (letters + 1) 'a' :=
    (lineBreaks_eq_zero (by simp; decide)).2
  have hmark : (Position.start.advanceOver (List.replicate (letters + 1) 'a')).MarksCut
      (List.replicate (letters + 1) 'a') ['?'] :=
    Position.marksCut_advanceOver fun hcut => by cases hcut.2
  obtain ⟨number, hcount, hnumber⟩ := getElem?_of_marksCut hmark (List.cons_ne_nil '?' [])
  refine ⟨number, _, hcount, hnumber, ?_⟩
  have hmargin : marginLength (List.replicate (letters + 1) 'a' ++ firstLine ['?']) = 0 := rfl
  rw [hmark.column_eq, hopen, hmargin, List.length_replicate]
  exact h

end LongLines

/-- Behind 65535 letters on a line a fault is out of reach. The run breaks off there, and does not tell of its
source. -/
theorem not_tells_of_long_line :
    Supplies (hostOf (longLine 65535)) (some "-") "<stdin>" (longLine 65535) ∧
      ∃ outcome : Outcome, run (hostOf (longLine 65535)) ⟨some "-", false, false⟩ = pure outcome ∧
        outcome.status.code = 101 ∧ ¬ outcome.Tells false "<stdin>" (longLine 65535) := by
  have hsupplies : Supplies (hostOf (longLine 65535)) (some "-") "<stdin>" (longLine 65535) := .standardInput rfl
  have hload : load (hostOf (longLine 65535)) ⟨some "-", false, false⟩ = pure ("<stdin>", .ok (longLine 65535)) :=
    load_of_supplies hsupplies
  have hfar : ∃ error ∈ faultsOf (longLine 65535), error.IsOutOfReach (longLine 65535) :=
    ⟨_, mem_faultsOf_longLine 65534, isOutOfReach_longLine 65534 le_rfl⟩
  have hbreaks := breaksOff_tokenize (hostOf (longLine 65535)) ⟨some "-", false, false⟩ "<stdin>" hfar
  refine ⟨hsupplies, _, ?_, hbreaks.code_eq, fun htells => ?_⟩
  · rw [run, hload, pure_bind]
    rfl
  · obtain ⟨error, hmem, hout⟩ := hfar
    have hnone := (tells_or_breaksOff (hostOf (longLine 65535)) ⟨some "-", false, false⟩ "<stdin>" _).1.1 htells
    exact hnone error hmem hout

end CommandLine

end Offside
