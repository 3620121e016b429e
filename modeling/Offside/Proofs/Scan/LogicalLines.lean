import Offside.Proofs.Lexeme.Cut
import Offside.Proofs.Scan.Halting

/-!
# Logical lines

Where an analysis finds no fault, its tokens come in logical lines. Each line has a lead, which is what its
margin does to the open blocks, and behind it at least one word, which is a token with a text of its own.
All lines but perhaps the last are ended by a line end, at which no bracket is open.

The lead of a line stands where its first word starts. Between the two nothing is read, so a scan that has
left a margin and not gone on is in front of a word.
-/

namespace Offside

/-- A token that is read from its text alone. -/
structure WordToken extends Token where
  whole : classify text = some ⟨.token kind, text⟩

/-- Its kind is that of a word. -/
theorem WordToken.isWord (word : WordToken) : word.kind.isWord = true :=
  isWord_of_classify word.whole

/-- What a margin does to the open blocks, as its tokens tell it. -/
inductive Lead where
  /-- No block is opened or closed. -/
  | level
  /-- A block is opened. -/
  | indent
  /-- A block is closed, and some more. -/
  | dedents (more : Nat)
deriving DecidableEq, Repr

namespace Lead

/-- The kinds of the tokens. -/
def kinds : Lead → List Kind
  | .level => []
  | .indent => [.indent]
  | .dedents more => List.replicate (more + 1) .dedent

/-- The tokens at a position. -/
def tokens (lead : Lead) (position : Position) : List Token :=
  lead.kinds.map fun kind => .synthetic kind position

/-- The number of open blocks behind the lead, given the number before it. -/
def opened (before : Nat) : Lead → Nat
  | .level => before
  | .indent => before + 1
  | .dedents more => before - (more + 1)

/-- Whether as many blocks are open as are closed. -/
def Fits (before : Nat) : Lead → Prop
  | .dedents more => more < before
  | _ => True

/-- The lead that closes a number of blocks. -/
def closing : Nat → Lead
  | 0 => .level
  | more + 1 => .dedents more

@[simp] theorem opened_closing (before count : Nat) : (closing count).opened before = before - count := by
  cases count <;> rfl

@[simp] theorem kinds_closing (count : Nat) : (closing count).kinds = List.replicate count .dedent := by
  cases count <;> rfl

theorem fits_closing {before count : Nat} (h : count ≤ before) : (closing count).Fits before := by
  cases count with
  | zero => trivial
  | succ more => exact h

end Lead

/-- A lead and some words behind it. -/
structure LogicalLine where
  lead : Lead
  first : WordToken
  more : List WordToken

namespace LogicalLine

/-- The words behind the lead. -/
def words (line : LogicalLine) : List WordToken :=
  line.first :: line.more

/-- The tokens, those of the lead at the start of the first word. -/
def tokens (line : LogicalLine) : List Token :=
  line.lead.tokens line.first.start ++ line.words.map WordToken.toToken

/-- The number of brackets that are open behind the words. -/
def depth (line : LogicalLine) : Nat :=
  line.words.foldl (fun depth word => word.kind.nest depth) 0

/-- The line with one more word. -/
def push (line : LogicalLine) (word : WordToken) : LogicalLine :=
  { line with more := line.more ++ [word] }

theorem tokens_push (line : LogicalLine) (word : WordToken) :
    (line.push word).tokens = line.tokens ++ [word.toToken] := by
  simp [tokens, words, push]

theorem depth_push (line : LogicalLine) (word : WordToken) :
    (line.push word).depth = word.kind.nest line.depth := by
  simp [depth, words, push]

end LogicalLine

/-- The tokens of whole logical lines, behind which a number of blocks are open. -/
inductive Lines : Nat → List Token → Prop where
  | nil : Lines 0 []
  | line {before : Nat} {tokens : List Token} {line : LogicalLine} {newline : Token}
      (hlines : Lines before tokens) (hfits : line.lead.Fits before) (hbalanced : line.depth = 0)
      (hnewline : newline.kind = .newline) :
      Lines (line.lead.opened before) (tokens ++ (line.tokens ++ [newline]))

namespace ScanState

/-- How far a scan has come with a logical line, by the tokens it has left behind. -/
inductive Phase (tokens : List Token) (state : ScanState) : Prop where
  /-- In a margin, behind whole lines. -/
  | between {measured : Option Nat} (hmode : state.mode = .margin measured)
      (hlines : Lines state.blocks.length tokens)
  /-- Behind a margin, in front of the first word or a fault. -/
  | entered {before : Nat} {earlier : List Token} {lead : Lead} {lexeme : Lexeme}
      (hmode : state.mode = .line 0) (hlines : Lines before earlier) (hfits : lead.Fits before)
      (hopened : lead.opened before = state.blocks.length)
      (htokens : tokens = earlier ++ lead.tokens state.position)
      (hlexeme : classify state.rest = some lexeme) (htrivia : lexeme.reading.isTrivia = false)
  /-- Behind a word. -/
  | inside {before : Nat} {earlier : List Token} {line : LogicalLine}
      (hmode : state.mode = .line line.depth) (hlines : Lines before earlier)
      (hfits : line.lead.Fits before) (hopened : line.lead.opened before = state.blocks.length)
      (htokens : tokens = earlier ++ line.tokens)

namespace Phase

variable {tokens : List Token} {events new : List Event} {state next : ScanState}

/-- In a margin, only whole lines stand behind. -/
theorem lines_of_margin {measured : Option Nat} (h : Phase tokens state)
    (hmargin : state.mode = .margin measured) : Lines state.blocks.length tokens := by
  cases h with
  | between hmode hlines => exact hlines
  | entered hmode | inside hmode =>
    rw [hmode] at hmargin
    cases hmargin

/-- A word goes on with the line, or is its first. -/
theorem word {depth : Nat} {kind : Kind} {text : List Char} (h : Phase tokens state)
    (hline : state.mode = .line depth) (hlexeme : classify state.rest = some ⟨.token kind, text⟩) :
    Phase (tokens ++ [.spanning kind text state.position]) (state.past text (.line (kind.nest depth))) := by
  let word : WordToken := ⟨.spanning kind text state.position, classify_text_of_token hlexeme⟩
  cases h with
  | between hmode =>
    rw [hmode] at hline
    cases hline
  | @entered before earlier lead _ hmode hlines hfits hopened htokens _ _ =>
    rw [hmode] at hline
    cases hline
    refine @inside _ _ before earlier ⟨lead, word, []⟩ rfl hlines hfits hopened ?_
    rw [htokens, List.append_assoc]
    rfl
  | @inside before earlier line hmode hlines hfits hopened htokens =>
    rw [hmode] at hline
    cases hline
    refine @inside _ _ before earlier (line.push word) ?_ hlines hfits hopened ?_
    · rw [LogicalLine.depth_push]
      rfl
    · rw [htokens, LogicalLine.tokens_push, List.append_assoc]

/-- A line is ended behind a word, and with all brackets closed. -/
theorem newline {text : List Char} (h : Phase tokens state) (hline : state.mode = .line 0)
    (hlexeme : classify state.rest = some ⟨.lineEnd, text⟩) :
    Phase (tokens ++ [.spanning .newline text state.position]) (state.past text (.margin none)) := by
  cases h with
  | between hmode =>
    rw [hmode] at hline
    cases hline
  | entered hmode hlines hfits hopened htokens hproper htrivia =>
    rw [hlexeme] at hproper
    cases hproper
    cases htrivia
  | @inside before earlier line hmode hlines hfits hopened htokens =>
    rw [hmode] at hline
    refine .between rfl ?_
    rw [htokens, List.append_assoc, past, ← hopened]
    exact .line hlines hfits (Mode.line.inj hline) rfl

/-- Trivia in a line are skipped behind a word only. -/
theorem skip {depth : Nat} {lexeme : Lexeme} (h : Phase tokens state) (hline : state.mode = .line depth)
    (hlexeme : classify state.rest = some lexeme) (htrivia : lexeme.reading.isTrivia = true) :
    Phase tokens (state.past lexeme.text (.line depth)) := by
  cases h with
  | between hmode =>
    rw [hmode] at hline
    cases hline
  | entered hmode hlines hfits hopened htokens hproper hproper' =>
    rw [hlexeme] at hproper
    cases hproper
    rw [htrivia] at hproper'
    cases hproper'
  | inside hmode hlines hfits hopened htokens =>
    rw [hmode] at hline
    exact .inside hline.symm hlines hfits hopened htokens

/-- Every move without a fault goes on with the logical lines. -/
theorem move (h : Phase (Event.tokens events) state) (hmove : state.Moves new next)
    (hclean : Event.errors new = []) : Phase (Event.tokens (events ++ new)) next := by
  rw [Event.tokens_append]
  cases hmove with
  | @skipsInMargin measured lexeme hmode hlexeme htrivia =>
    obtain ⟨measured', hbehind⟩ := exists_marginBehind measured lexeme
    rw [Event.tokens_nil, List.append_nil]
    exact .between hbehind (h.lines_of_margin hmode)
  | opens hmode hlexeme htrivia hwider =>
    exact @entered _ _ _ _ .indent _ rfl (h.lines_of_margin hmode) trivial rfl rfl hlexeme htrivia
  | @settles measured lexeme closed kept hmode hlexeme htrivia hblocks hclosed hkept =>
    have hlines := h.lines_of_margin hmode
    have hlength : state.blocks.length = closed.length + kept.length := by rw [hblocks, List.length_append]
    refine @entered _ _ _ _ (.closing closed.length) _ rfl hlines (Lead.fits_closing (by omega)) ?_ ?_
      hlexeme htrivia
    · rw [Lead.opened_closing]
      simp only
      omega
    · rw [tokens_closing, Lead.tokens, Lead.kinds_closing, List.map_replicate, List.map_const']
  | misfits => simp at hclean
  | skipsInLine hmode hlexeme htrivia hjoined =>
    rw [Event.tokens_nil, List.append_nil]
    exact h.skip hmode hlexeme htrivia
  | endsLine hmode hlexeme => exact h.newline hmode hlexeme
  | yields hmode hlexeme => exact h.word hmode hlexeme
  | reports => cases hclean

/-- Until a fault is found, the tokens of a scan come in logical lines. -/
theorem of_steps {source : List Char} (h : Steps (initial source) events state)
    (hclean : Event.errors events = []) : Phase (Event.tokens events) state := by
  induction h with
  | refl => exact .between rfl .nil
  | tail _ hstep ih =>
    rw [Event.errors_append, List.append_eq_nil_iff] at hclean
    exact (ih hclean.1).move (moves_of_step hstep) hclean.2

end Phase

end ScanState

/-- The tokens that end a scan with a number of open blocks. -/
def endTokens (opened : Nat) (position : Position) : List Token :=
  List.replicate opened (.synthetic .dedent position) ++ [.synthetic .endOfInput position]

/-- The tokens that end a scan are those of its open blocks and of the place it has come to. -/
theorem ScanState.tokens_finish_eq (state : ScanState) :
    Event.tokens state.finish = endTokens state.blocks.length state.position := by
  rw [tokens_finish, endTokens, List.map_const']

/-- Logical lines, the last perhaps without a line end, and the tokens that end a scan. -/
inductive Stream : List Token → Prop where
  /-- The last line is ended, or there is none. -/
  | ended {opened : Nat} {tokens : List Token} (position : Position) (hlines : Lines opened tokens) :
      Stream (tokens ++ endTokens opened position)
  /-- The last line is not ended. -/
  | unended {before : Nat} {tokens : List Token} {line : LogicalLine} (position : Position)
      (hlines : Lines before tokens) (hfits : line.lead.Fits before) :
      Stream (tokens ++ (line.tokens ++ endTokens (line.lead.opened before) position))

/-- The tokens of a text without faults are a stream of logical lines. -/
theorem stream_tokensOf {source : List Char} (h : faultsOf source = []) : Stream (tokensOf source) := by
  have hsteps := ScanState.steps_run (.initial source)
  have hclean : Event.errors (ScanState.initial source).run.1 = [] := by rw [← faultsOf_eq_run, h]
  rw [tokensOf_eq_run, ScanState.tokens_finish_eq]
  cases ScanState.Phase.of_steps hsteps hclean with
  | between hmode hlines => exact .ended _ hlines
  | entered hmode hlines hfits hopened htokens hlexeme htrivia =>
    -- the text is read to its end, so no lexeme is left to open the line
    rcases ScanState.rest_eq_nil_or_halted source with hrest | hhalted
    · rw [hrest] at hlexeme
      cases hlexeme
    · rw [hhalted] at hmode
      cases hmode
  | inside hmode hlines hfits hopened htokens =>
    rw [htokens, ← hopened, List.append_assoc]
    exact .unended _ hlines hfits

end Offside
