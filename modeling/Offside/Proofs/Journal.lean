import Offside.Journal
import Offside.Proofs.Scan.Blocks

/-!
# What a journal tells

A journal is no more than the events of a scan put into words, so it is enough to know which events stand next to
each other. An opened block and a closed block are followed by their tokens at once, and a fatal fault by the end of
the scan. This is a grammar of lists of events, and every step of a scan puts a word of it in front of what comes
later.

Counts and neighbours of events are then found by induction on the grammar, and the records have them too.
-/

namespace Offside

/-- Nothing but tokens that close blocks or end the input. -/
def IsEnding (events : List Event) : Prop :=
  ∃ ends : List Token, events = ends.map .emitted ∧
    ∀ token ∈ ends, token.kind = .dedent ∨ token.kind = .endOfInput

/-- Lists of events in which every block that a line opens or closes has its token, and in which only an ending comes
after a fatal fault. -/
inductive Told : List Event → Prop where
  | nil : Told []
  | opened {width : Nat} {position : Position} {later : List Event} (hlater : Told later) :
    Told (.opened width :: .emitted (.synthetic .indent position) :: later)
  | closed {level width : Nat} {position : Position} {later : List Event} (hnarrow : width < level)
    (hlater : Told later) : Told (.closed level width :: .emitted (.synthetic .dedent position) :: later)
  | emitted {token : Token} {later : List Event} (hkind : token.kind ≠ .indent) (hlater : Told later) :
    Told (.emitted token :: later)
  | failed {error : LocatedFault} {later : List Event} (hfatal : error.isFatal = false) (hlater : Told later) :
    Told (.failed error :: later)
  | aborted {error : LocatedFault} {later : List Event} (hfatal : error.isFatal = true) (hending : IsEnding later)
    (hlater : Told later) : Told (.failed error :: .aborted error :: later)

variable {events later : List Event} {closed : List Nat} {width : Nat}

/-! ### The events of a scan -/

/-- Blocks that a line closes are told one after another. -/
theorem Told.closing (hclosed : ∀ level ∈ closed, width < level) (position : Position) (hlater : Told later) :
    Told (ScanState.closing position width closed ++ later) := by
  induction closed with
  | nil => exact hlater
  | cons level levels ih =>
    rw [List.forall_mem_cons] at hclosed
    exact .closed hclosed.1 (ih hclosed.2)

/-- An ending is told as it is. -/
theorem IsEnding.told (h : IsEnding events) : Told events := by
  obtain ⟨ends, rfl, hends⟩ := h
  induction ends with
  | nil => exact .nil
  | cons token ends ih =>
    rw [List.forall_mem_cons] at hends
    refine .emitted (fun hindent => ?_) (ih hends.2)
    rw [hindent] at hends
    exact hends.1.elim nofun nofun

namespace ScanState

variable {state next : ScanState} {new : List Event}

/-- A scan ends with tokens that close blocks, and with the end of input. -/
theorem isEnding_finish (state : ScanState) : IsEnding state.finish := by
  refine ⟨state.blocks.map (fun _ => .synthetic .dedent state.position) ++
    [.synthetic .endOfInput state.position], ?_, fun token hmem => ?_⟩
  · rw [finish, List.map_append, List.map_map]
    rfl
  · rcases List.mem_append.1 hmem with hmem | hmem
    · obtain ⟨level, -, rfl⟩ := List.mem_map.1 hmem
      exact .inl rfl
    · obtain rfl := List.mem_singleton.1 hmem
      exact .inr rfl

/-- Every move is told in front of what comes later, which is the end where the scan halts. -/
theorem Moves.told (h : state.Moves new next) (hlater : Told later)
    (hhalted : next.mode = .halted → IsEnding later) : Told (new ++ later) := by
  cases h with
  | skipsInMargin | skipsInLine => exact hlater
  | opens => exact .opened hlater
  | settles hmode hlexeme htrivia hblocks hclosed => exact .closing hclosed _ hlater
  | misfits hmode hlexeme htrivia hblocks hclosed hkept hnarrow herror =>
    rw [List.append_assoc]
    refine .closing hclosed _ (.aborted ?_ (hhalted rfl) hlater)
    rw [herror]
    rfl
  | endsLine => exact .emitted nofun hlater
  | yields hmode hlexeme =>
    refine .emitted ?_ hlater
    rintro rfl
    cases isLayout_of_classify hlexeme
  | reports hmode hlexeme => exact .failed (recoverable_of_classify hlexeme) hlater

/-- A run is told, with what ends it. -/
theorem told_run (state : ScanState) : Told (state.run.1 ++ state.run.2.finish) := by
  induction state using run.induct with
  | case1 state hstep =>
    rw [run_of_step_eq_none hstep]
    exact state.isEnding_finish.told
  | case2 state events next hstep ih =>
    rw [run_of_step hstep, List.append_assoc]
    -- a scan that has halted takes no more steps, so only its ending is left
    refine (moves_of_step hstep).told ih fun hhalted => ?_
    rw [run_of_step_eq_none ((step_eq_none_iff next).2 (.inr hhalted))]
    exact next.isEnding_finish

end ScanState

/-! ### Counts and neighbours -/

/-- What stands behind an event. -/
def Event.IsFollowedBy (after : List Event) : Event → Prop
  | .opened _ => ∃ position later, after = .emitted (.synthetic .indent position) :: later
  | .closed level width =>
    width < level ∧ ∃ position later, after = .emitted (.synthetic .dedent position) :: later
  | .failed error => error.isFatal = true → ∃ later, after = .aborted error :: later ∧ IsEnding later
  | .emitted _ | .aborted _ => True

/-- Every event of a list that is told is followed by what belongs to it. -/
theorem Told.isFollowedBy {front after : List Event} {event : Event} (h : Told (front ++ event :: after)) :
    event.IsFollowedBy after := by
  generalize hsplit : front ++ event :: after = events at h
  -- where two events belong together, nothing is asked of what is behind the second
  induction h generalizing front with
  | nil => simp at hsplit
  | opened hlater ih =>
    rcases front with _ | ⟨first, _ | ⟨second, front⟩⟩ <;> cases hsplit
    · exact ⟨_, _, rfl⟩
    · trivial
    · exact ih rfl
  | closed hnarrow hlater ih =>
    rcases front with _ | ⟨first, _ | ⟨second, front⟩⟩ <;> cases hsplit
    · exact ⟨hnarrow, _, _, rfl⟩
    · trivial
    · exact ih rfl
  | emitted hkind hlater ih =>
    rcases front with _ | ⟨first, front⟩ <;> cases hsplit
    · trivial
    · exact ih rfl
  | failed hfatal hlater ih =>
    rcases front with _ | ⟨first, front⟩ <;> cases hsplit
    · exact fun h => absurd (h.symm.trans hfatal) nofun
    · exact ih rfl
  | aborted hfatal hending hlater ih =>
    rcases front with _ | ⟨first, _ | ⟨second, front⟩⟩ <;> cases hsplit
    · exact fun _ => ⟨_, rfl, hending⟩
    · trivial
    · exact ih rfl

namespace Record

/-- Whether a record is an event with a message. -/
def hasMessage (message : String) : Record → Bool
  | .span _ _ _ => false
  | .event _ text _ => text == message

/-- The record of a token. -/
def ofToken (token : Token) : Record :=
  .event .trace "token" [("token", .text token.render)]

/-- The record of a fault. -/
def ofFault (error : LocatedFault) : Record :=
  .event .debug "lexical error" [("error", .text error.render)]

/-- The records of tokens are those with the message of tokens. -/
theorem filter_token (events : List Event) :
    (events.map ofEvent).filter (hasMessage "token") = (Event.tokens events).map ofToken := by
  induction events with
  | nil => rfl
  | cons event events ih => cases event <;> simpa [hasMessage, ofEvent, ofToken] using ih

/-- The records of faults are those with the message of faults. -/
theorem filter_fault (events : List Event) :
    (events.map ofEvent).filter (hasMessage "lexical error") = (Event.errors events).map ofFault := by
  induction events with
  | nil => rfl
  | cons event events ih => cases event <;> simpa [hasMessage, ofEvent, ofFault] using ih

end Record

open Record

/-- An ending has no faults. -/
theorem IsEnding.errors_eq_nil (h : IsEnding events) : Event.errors events = [] := by
  obtain ⟨ends, rfl, -⟩ := h
  rw [Event.errors, List.filterMap_map, List.filterMap_eq_nil_iff]
  exact fun _ _ => rfl

/-- As many blocks are told to be opened as there are tokens that open blocks. -/
theorem Told.countP_indent (h : Told events) :
    (events.map ofEvent).countP (hasMessage "indent") = indents (Event.tokens events) := by
  induction h with
  | nil => rfl
  | opened _ ih => simpa [hasMessage, ofEvent, indents, Token.synthetic] using ih
  | closed _ _ ih => simpa [hasMessage, ofEvent, indents, Token.synthetic] using ih
  | emitted hkind _ ih => simpa [hasMessage, ofEvent, indents, hkind] using ih
  | failed _ _ ih => simpa [hasMessage, ofEvent, indents] using ih
  | aborted _ _ _ ih => simpa [hasMessage, ofEvent, indents] using ih

/-- A scan is told to be aborted once if a fault is fatal, and else not at all. -/
theorem Told.countP_aborted (h : Told events) :
    (events.map ofEvent).countP (hasMessage "aborting scan") =
      if (Event.errors events).any LocatedFault.isFatal then 1 else 0 := by
  induction h with
  | nil => rfl
  | opened _ ih | closed _ _ ih | emitted _ _ ih => simpa [hasMessage, ofEvent] using ih
  | failed hfatal _ ih => simpa [hasMessage, ofEvent, hfatal] using ih
  | aborted hfatal hending _ ih => simpa [hasMessage, ofEvent, hfatal, hending.errors_eq_nil] using ih

/-! ### The records of a scan -/

namespace Record

/-- The records from a place on start with that of the next token, which has a kind. -/
def NextIsToken (tokens : List Token) (kind : Kind) (before after : List Record) : Prop :=
  ∃ token later, after = ofToken token :: later ∧ token.kind = kind ∧
    tokens[before.countP (hasMessage "token")]? = some token

/-- What the records of all that happens in a scan say of its tokens and faults. -/
structure AccountFor (records : List Record) (tokens : List Token) (errors : List LocatedFault) : Prop where
  messages : ∀ record ∈ records, ∃ severity message fields, record = .event severity message fields ∧
    message ∈ ["indent", "dedent", "token", "lexical error", "aborting scan"]
  tokens_eq : records.filter (hasMessage "token") = tokens.map ofToken
  errors_eq : records.filter (hasMessage "lexical error") = errors.map ofFault
  indent : ∀ before record after, records = before ++ record :: after → record.hasMessage "indent" = true →
    NextIsToken tokens .indent before after
  indents_eq : records.countP (hasMessage "indent") = indents tokens
  dedent : ∀ before record after, records = before ++ record :: after → record.hasMessage "dedent" = true →
    NextIsToken tokens .dedent before after ∧ ∃ top width,
      record = .event .trace "dedent" [("top", .number top), ("width", .number width)] ∧ width < top
  aborts_eq : records.countP (hasMessage "aborting scan") = if errors.any LocatedFault.isFatal then 1 else 0
  abort : ∀ error ∈ errors, error.isFatal = true → ∃ (before : List Record) (ends : List Token),
    records = before ++ ofFault error :: .event .debug "aborting scan" [("error", .text error.render)] ::
      ends.map ofToken ∧ ∀ token ∈ ends, token.kind = .dedent ∨ token.kind = .endOfInput

/-- A record that stands between others is that of an event that stands between others. -/
theorem exists_split {before after : List Record} {record : Record}
    (h : events.map ofEvent = before ++ record :: after) :
    ∃ front event behind, events = front ++ event :: behind ∧ before = front.map ofEvent ∧
      record = ofEvent event ∧ after = behind.map ofEvent := by
  obtain ⟨front, rest, rfl, rfl, hrest⟩ := List.map_eq_append_iff.1 h
  obtain ⟨event, behind, rfl, rfl, rfl⟩ := List.map_eq_cons_iff.1 hrest
  exact ⟨front, event, behind, rfl, rfl, rfl, rfl⟩

/-- A token that is yielded right behind an event is the next token. -/
theorem nextIsToken {event : Event} (h : event.token? = none) (front : List Event) (token : Token) :
    NextIsToken (Event.tokens (front ++ event :: .emitted token :: later)) token.kind (front.map ofEvent)
      (ofToken token :: later.map ofEvent) := by
  have hcount : (front.map ofEvent).countP (hasMessage "token") = (Event.tokens front).length := by
    rw [List.countP_eq_length_filter, filter_token, List.length_map]
  refine ⟨token, _, rfl, rfl, ?_⟩
  rw [hcount, Event.tokens_append, List.getElem?_append_right le_rfl, Nat.sub_self, Event.tokens_cons, h]
  rfl

end Record

/-- Records of events that are told account for the tokens and faults of the events. -/
theorem Told.accountFor (h : Told events) :
    AccountFor (events.map ofEvent) (Event.tokens events) (Event.errors events) where
  messages := by
    intro record hmem
    obtain ⟨event, -, rfl⟩ := List.mem_map.1 hmem
    cases event <;> exact ⟨_, _, _, rfl, by decide⟩
  tokens_eq := filter_token events
  errors_eq := filter_fault events
  indent := by
    intro before record after hsplit hmessage
    obtain ⟨front, event, behind, rfl, rfl, rfl, rfl⟩ := exists_split hsplit
    cases event with
    | opened width =>
      obtain ⟨position, later, rfl⟩ := h.isFollowedBy
      exact nextIsToken rfl front _
    | _ => cases hmessage
  indents_eq := h.countP_indent
  dedent := by
    intro before record after hsplit hmessage
    obtain ⟨front, event, behind, rfl, rfl, rfl, rfl⟩ := exists_split hsplit
    cases event with
    | closed level width =>
      obtain ⟨hnarrow, position, later, rfl⟩ := h.isFollowedBy
      exact ⟨nextIsToken rfl front _, level, width, rfl, hnarrow⟩
    | _ => cases hmessage
  aborts_eq := h.countP_aborted
  abort := by
    intro error hmem hfatal
    obtain ⟨event, hevent, herror⟩ := List.mem_filterMap.1 hmem
    obtain ⟨front, behind, rfl⟩ := List.append_of_mem hevent
    cases event with
    | failed other =>
      cases herror
      obtain ⟨later, rfl, ends, rfl, hends⟩ := h.isFollowedBy hfatal
      refine ⟨front.map ofEvent, ends, ?_, hends⟩
      rw [List.map_append, List.map_cons, List.map_cons, List.map_map]
      rfl
    | _ => cases herror

/-- A journal opens with the spans of the analysis and of the scan, both with the length of the text, and closes with
the numbers of tokens and faults. The records between account for the tokens and faults. -/
theorem journal_accounts_for_scan (source : List Char) :
    ∃ records : List Record,
      journal source =
        [.span .info "analyze" [("len", .number (Text.byteLength source))],
          .span .info "scan_tokens" [("len", .number (Text.byteLength source))]] ++ records ++
        [.event .debug "scan finished"
          [("tokens", .number (tokensOf source).length), ("errors", .number (faultsOf source).length)]] ∧
      AccountFor records (tokensOf source) (faultsOf source) := by
  have htold : Told (Scan.ofSource source).events := ScanState.told_run (.initial source)
  rw [tokensOf_eq, faultsOf_eq]
  exact ⟨_, rfl, htold.accountFor⟩

end Offside
