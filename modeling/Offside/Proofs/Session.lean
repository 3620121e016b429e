import Offside.Session
import Offside.Proofs.Scan.Turns

/-!
# What a session answers

What a session knows depends on the requests that it was asked so far, and only on whether a scan was among them
and on whether the faults were taken since the first scan. So every answer can be said from the text and the
requests in front of it, and no answer depends on how often or in which order anything else was asked.

The faults that wait, put behind all that were taken, are the faults of the text once it was scanned. None is lost
and none is taken twice.
-/

namespace Offside

open Text

namespace Session

/-- The faults that wait after some requests: those of the text from the first scan on, until they are taken. -/
def waiting (source : List Char) : List Request → List LocatedFault
  | [] => []
  | .scanTokens :: later => if .takeErrors ∈ later then [] else faultsOf source
  | _ :: later => waiting source later

/-- The session of a text after some requests. -/
def after (source : List Char) (earlier : List Request) : Session where
  source
  position := if .scanTokens ∈ earlier then (Scan.ofSource source).position else .start
  errors := waiting source earlier
  isFinished := decide (.scanTokens ∈ earlier)

/-- The reply to a request after some others, in a text whose end of input is at `stop`. -/
def replyAfter (source : List Char) (stop : Position) (earlier : List Request) : Request → Reply
  | .position => .position (if .scanTokens ∈ earlier then stop else .start)
  | .isAtEnd =>
    .flag (if .scanTokens ∈ earlier then (faultsOf source).all (!·.isFatal) else source.isEmpty)
  | .errors | .takeErrors => .errors (waiting source earlier)
  | .scanTokens => .tokens (if .scanTokens ∈ earlier then [] else tokensOf source)

/-- The faults that were taken, as the replies to some requests have them. -/
def taken (requests : List Request) (replies : List Reply) : List LocatedFault :=
  (requests.zip replies).flatMap fun
    | (.takeErrors, .errors errors) => errors
    | _ => []

variable {source : List Char} {earlier : List Request} {request : Request}

/-! ### Faults that wait -/

/-- What is asked before the first scan does not count for what waits. -/
theorem waiting_append (h : .scanTokens ∉ earlier) (later : List Request) :
    waiting source (earlier ++ later) = waiting source later := by
  induction earlier with
  | nil => rfl
  | cons first rest ih =>
    simp only [List.mem_cons, not_or] at h
    cases first with
    | scanTokens => exact absurd rfl h.1
    | _ => exact ih h.2

/-- Nothing waits before the first scan. -/
theorem waiting_of_not_mem (h : .scanTokens ∉ earlier) : waiting source earlier = [] := by
  rw [← List.append_nil earlier, waiting_append h, waiting]

/-- Nothing waits when the faults were just taken. -/
theorem waiting_concat_takeErrors (source : List Char) (earlier : List Request) :
    waiting source (earlier ++ [.takeErrors]) = [] := by
  induction earlier with
  | nil => rfl
  | cons first later ih =>
    cases first with
    | scanTokens => exact if_pos (by simp)
    | _ => exact ih

/-- The first scan finds the faults of the text. -/
theorem waiting_concat_scanTokens (h : .scanTokens ∉ earlier) :
    waiting source (earlier ++ [.scanTokens]) = faultsOf source :=
  waiting_append h [.scanTokens]

/-- The faults that wait are left alone by other requests, and by a scan that is not the first. -/
theorem waiting_concat (htake : request ≠ .takeErrors) (hscan : request = .scanTokens → .scanTokens ∈ earlier) :
    waiting source (earlier ++ [request]) = waiting source earlier := by
  induction earlier with
  | nil =>
    cases request with
    | scanTokens => cases hscan rfl
    | _ => rfl
  | cons first later ih =>
    cases first with
    | scanTokens =>
      have hsame : .takeErrors ∈ later ++ [request] ↔ .takeErrors ∈ later := by simp [htake.symm]
      simp only [List.cons_append, waiting, hsame]
    | _ => exact ih (fun hrequest => by simpa using hscan hrequest)

/-! ### Answers -/

/-- Before anything is asked, a session is that of its text. -/
theorem after_nil (source : List Char) : after source [] = ofSource source := rfl

/-- A request that scans nothing and takes nothing leaves a session as it is, and so does a scan that is not the
first. -/
theorem after_concat (htake : request ≠ .takeErrors) (hscan : request = .scanTokens → .scanTokens ∈ earlier) :
    after source (earlier ++ [request]) = after source earlier := by
  have hsame : .scanTokens ∈ earlier ++ [request] ↔ .scanTokens ∈ earlier := by
    rw [List.mem_append, List.mem_singleton, or_iff_left_iff_imp]
    exact fun hrequest => hscan hrequest.symm
  simp only [after, hsame, waiting_concat htake hscan]

/-- A text is at its end before a scan when it is empty, and behind a scan when no fault is fatal. -/
theorem isAtEnd_after (source : List Char) (earlier : List Request) :
    (after source earlier).isAtEnd =
      if .scanTokens ∈ earlier then (faultsOf source).all (!·.isFatal) else source.isEmpty := by
  by_cases hscan : .scanTokens ∈ earlier
  · have hle : (Scan.ofSource source).position.index ≤ byteLength source :=
      (ScanState.steps_run (.initial source)).isBoundary.le
    have hend : byteLength source ≤ (Scan.ofSource source).position.index ↔
        (Scan.ofSource source).position.index = byteLength source := ⟨hle.antisymm, fun h => h.ge⟩
    simp only [isAtEnd, after, if_pos hscan]
    rw [Bool.eq_iff_iff, decide_eq_true_iff, hend, index_position_eq_iff]
    simp
  · simp only [isAtEnd, after, if_neg hscan]
    cases source with
    | nil => rfl
    | cons c cs => exact decide_eq_false (Nat.not_le.2 (byteLength_pos (List.cons_ne_nil c cs)))

/-- A session is scanned once. -/
theorem scanTokens_after (h : .scanTokens ∈ earlier) :
    (after source earlier).scanTokens = ([], after source earlier) :=
  if_pos (decide_eq_true h)

/-- One answer follows from the requests so far, and leads on to those with one more. -/
theorem answer_after (source : List Char) (earlier : List Request) (request : Request) :
    (after source earlier).answer request =
      (replyAfter source (Scan.ofSource source).position earlier request, after source (earlier ++ [request])) := by
  cases request with
  | position | errors => exact congrArg (Prod.mk _) (Eq.symm (after_concat (by simp) (by simp)))
  | isAtEnd =>
    rw [answer, isAtEnd_after]
    exact congrArg (Prod.mk _) (Eq.symm (after_concat (by simp) (by simp)))
  | takeErrors =>
    simp only [answer, takeErrors, after, waiting_concat_takeErrors, List.mem_append, List.mem_singleton,
      reduceCtorEq, or_false]
    rfl
  | scanTokens =>
    by_cases hscan : .scanTokens ∈ earlier
    · rw [answer, scanTokens_after hscan, replyAfter, if_pos hscan]
      exact congrArg (Prod.mk _) (Eq.symm (after_concat (by simp) fun _ => hscan))
    · have hnow : .scanTokens ∈ earlier ++ [.scanTokens] := by simp
      rw [answer, scanTokens, replyAfter, if_neg hscan, tokensOf_eq]
      simp only [after, hscan, hnow, decide_false, decide_true, if_true, waiting_of_not_mem hscan,
        waiting_concat_scanTokens hscan, faultsOf_eq, List.nil_append, Bool.false_eq_true, if_false]
      rfl

/-! ### Conversations -/

/-- Answering some requests leads on to the requests so far with these behind them. -/
theorem converse_after_snd (source : List Char) (earlier requests : List Request) :
    ((after source earlier).converse requests).2 = after source (earlier ++ requests) := by
  induction requests generalizing earlier with
  | nil => rw [List.append_nil]; rfl
  | cons request requests ih => rw [converse, answer_after, ih, List.append_assoc, List.singleton_append]

/-- Each reply follows from the requests in front of it. -/
theorem getElem?_converse_after (source : List Char) (earlier requests : List Request) (i : Nat) :
    ((after source earlier).converse requests).1[i]? = requests[i]?.map
      (replyAfter source (Scan.ofSource source).position (earlier ++ requests.take i)) := by
  induction requests generalizing earlier i with
  | nil => rfl
  | cons request requests ih =>
    rw [converse, answer_after]
    cases i with
    | zero => simp
    | succ i => simpa using ih (earlier ++ [request]) i

/-- What is taken, and then what waits, is what waited before and what a first scan finds. -/
theorem taken_append_waiting (source : List Char) (earlier requests : List Request) :
    taken requests ((after source earlier).converse requests).1 ++ waiting source (earlier ++ requests) =
      waiting source earlier ++
        if .scanTokens ∈ requests ∧ .scanTokens ∉ earlier then faultsOf source else [] := by
  induction requests generalizing earlier with
  | nil => simp [taken]
  | cons request requests ih =>
    have hlater := ih (earlier ++ [request])
    rw [List.append_assoc, List.singleton_append] at hlater
    rw [converse, answer_after]
    -- what waits only goes down to nothing when it is taken, and only comes up at the first scan
    cases request with
    | takeErrors =>
      rw [waiting_concat_takeErrors] at hlater
      simp only [taken, List.zip_cons_cons, List.flatMap_cons, replyAfter, List.append_assoc] at hlater ⊢
      rw [hlater]
      simp
    | scanTokens =>
      by_cases hscan : .scanTokens ∈ earlier
      · have hsame : waiting source (earlier ++ [.scanTokens]) = waiting source earlier :=
          waiting_concat (by simp) fun _ => hscan
        simpa [taken, hsame, hscan] using hlater
      · simpa [taken, waiting_concat_scanTokens hscan, waiting_of_not_mem hscan, hscan] using hlater
    | position | isAtEnd | errors => simpa [taken, waiting_concat] using hlater

/-- The tokens of a text end with its only end of input. Each reply of a session follows from the requests in front
of it, with the start of the end of input as the position behind the first scan. A second scan changes nothing. All
faults that are taken, and behind them those that are left, are the faults of the text if it was scanned. -/
theorem session_answers (source : List Char) :
    ∃ front stop, tokensOf source = front ++ [stop] ∧ stop.kind = .endOfInput ∧
      (∀ token ∈ front, token.kind ≠ .endOfInput) ∧
      ∀ requests : List Request,
        (∀ i, ((ofSource source).converse requests).1[i]? =
          requests[i]?.map (replyAfter source stop.start (requests.take i))) ∧
        (.scanTokens ∈ requests → ((ofSource source).converse requests).2.scanTokens =
          ([], ((ofSource source).converse requests).2)) ∧
        taken requests ((ofSource source).converse requests).1 ++ ((ofSource source).converse requests).2.errors =
          if .scanTokens ∈ requests then faultsOf source else [] := by
  obtain ⟨front, htokens, hfront⟩ := exists_front_of_tokensOf source
  refine ⟨front, _, htokens, rfl, hfront, fun requests => ?_⟩
  rw [← after_nil, converse_after_snd, List.nil_append]
  refine ⟨getElem?_converse_after source [] requests, scanTokens_after, ?_⟩
  exact (taken_append_waiting source [] requests).trans (by simp [waiting])

/-- A text with a fault that is recovered from and a fatal one, which is scanned and taken twice. The end of input
is where the scan halts, in front of the end of the text. -/
theorem session_answers_of_misfit :
    ((ofSource "a?\n  b\n c".toList).converse [.scanTokens, .takeErrors, .scanTokens, .takeErrors, .position]).1[4]? =
        some (.position ⟨3, 1, 8⟩) ∧
      taken [.scanTokens, .takeErrors, .scanTokens, .takeErrors]
        ((ofSource "a?\n  b\n c".toList).converse [.scanTokens, .takeErrors, .scanTokens, .takeErrors]).1 ++
        ((ofSource "a?\n  b\n c".toList).converse [.scanTokens, .takeErrors, .scanTokens, .takeErrors]).2.errors =
        [⟨.unrecognisedCharacter '?', ⟨1, 1, 1⟩⟩, ⟨.inconsistentDedent 1 [0, 2], ⟨3, 1, 8⟩⟩] := by
  obtain ⟨front, stop, htokens, -, -, hall⟩ := session_answers "a?\n  b\n c".toList
  have hstop : (tokensOf "a?\n  b\n c".toList).getLast?.map Token.start = some ⟨3, 1, 8⟩ := by
    rw [tokensOf_eq_runFor]
    decide +kernel
  have hfaults : faultsOf "a?\n  b\n c".toList =
      [⟨.unrecognisedCharacter '?', ⟨1, 1, 1⟩⟩, ⟨.inconsistentDedent 1 [0, 2], ⟨3, 1, 8⟩⟩] := by
    rw [faultsOf_eq_runFor]
    decide +kernel
  rw [htokens, List.getLast?_concat] at hstop
  refine ⟨((hall _).1 4).trans ?_, ((hall _).2.2).trans hfaults⟩
  exact congrArg (fun position => some (Reply.position position)) (Option.some.inj hstop)

end Session

end Offside
