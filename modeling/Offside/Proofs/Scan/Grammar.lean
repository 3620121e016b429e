import Mathlib.Computability.Language
import Mathlib.Data.List.Chain
import Offside.Proofs.Scan.LogicalLines

/-!
# The grammar of token streams

Where an analysis finds no fault, the kinds of its tokens are a word of a regular language: lines with a
lead, some words and a line end, perhaps one more line without a line end, the tokens that close blocks,
and the end of input.

What two neighbours can be is read off the logical lines. A line end stands behind a word only, so no line
is empty, and no token that opens a block stands beside one that opens or closes another. Each token of a
lead is placed where the token behind it starts, and so where the first word of the line starts.
-/

namespace Offside

open scoped Computability

namespace Kind

/-- Whether tokens of the kind open or close a block. -/
def isBlock : Kind → Bool
  | .indent | .dedent => true
  | _ => false

theorem isBlock_of_isWord {kind : Kind} (h : kind.isWord = true) : kind.isBlock = false := by
  cases kind <;> first | rfl | cases h

end Kind

/-! ### The language -/

/-- One word. -/
def wordKinds : Language Kind :=
  {kinds | ∃ kind : Kind, kind.isWord = true ∧ kinds = [kind]}

/-- What a line does to the open blocks: nothing, open one, or close one or more. -/
def leadKinds : Language Kind :=
  1 + {[.indent]} + {[.dedent]} * {[.dedent]}∗

/-- A logical line: a lead, and one or more words. -/
def lineKinds : Language Kind :=
  leadKinds * (wordKinds * wordKinds∗)

/-- A token stream: ended lines, perhaps one that is not ended, closed blocks, and the end of input. -/
def streamKinds : Language Kind :=
  (lineKinds * {[.newline]})∗ * (1 + lineKinds) * {[.dedent]}∗ * {[.endOfInput]}

/-- A kind alone is the only word of its language. -/
theorem singleton_mem (kind : Kind) : [kind] ∈ ({[kind]} : Language Kind) := rfl

/-- A repetition goes on with one word more. -/
theorem append_mem_kstar {language : Language Kind} {a b : List Kind} (ha : a ∈ language∗)
    (hb : b ∈ language) : a ++ b ∈ language∗ :=
  Set.mem_of_mem_of_subset (Language.append_mem_mul ha hb) (kstar_mul_le_kstar (a := language))

/-- Any number of one kind is a repetition of it. -/
theorem replicate_mem_kstar (count : Nat) (kind : Kind) :
    List.replicate count kind ∈ ({[kind]} : Language Kind)∗ := by
  refine Language.mem_kstar.2 ⟨List.replicate count [kind], ?_, fun kinds hkinds => ?_⟩
  · simp
  · exact List.eq_of_mem_replicate hkinds

/-- The kinds of a lead are those that the grammar allows. -/
theorem Lead.kinds_mem (lead : Lead) : lead.kinds ∈ leadKinds := by
  cases lead with
  | level => exact .inl (.inl Language.nil_mem_one)
  | indent => exact .inl (.inr (singleton_mem _))
  | dedents more => exact .inr (Language.append_mem_mul (singleton_mem _) (replicate_mem_kstar more _))

namespace LogicalLine

/-- The kinds of a logical line are those of a lead and of some words. -/
theorem kinds_mem (line : LogicalLine) : line.tokens.map Token.kind ∈ lineKinds := by
  have hword : ∀ word : WordToken, [word.kind] ∈ wordKinds :=
    fun word => ⟨word.kind, word.isWord, rfl⟩
  have hmore : line.more.map (fun word => word.kind) ∈ wordKinds∗ := by
    refine Language.mem_kstar.2 ⟨line.more.map fun word => [word.kind], ?_, ?_⟩
    · induction line.more with
      | nil => rfl
      | cons word words ih => simp [ih]
    · intro kinds hkinds
      obtain ⟨word, -, rfl⟩ := List.mem_map.1 hkinds
      exact hword word
  have hlead : (line.lead.tokens line.first.start).map Token.kind = line.lead.kinds := by
    simp [Lead.tokens, Token.synthetic, Function.comp_def]
  have hwords : (line.words.map WordToken.toToken).map Token.kind =
      [line.first.kind] ++ line.more.map fun word => word.kind := by
    simp [words, Function.comp_def]
  rw [tokens, List.map_append, hlead, hwords]
  exact Language.append_mem_mul line.lead.kinds_mem (Language.append_mem_mul (hword line.first) hmore)

end LogicalLine

/-- The kinds of whole lines repeat those of an ended line. -/
theorem Lines.kinds_mem {opened : Nat} {tokens : List Token} (h : Lines opened tokens) :
    tokens.map Token.kind ∈ (lineKinds * {[.newline]})∗ := by
  induction h with
  | nil => exact Language.nil_mem_kstar _
  | @line before tokens line newline hlines hfits hbalanced hnewline ih =>
    have hended : (line.tokens ++ [newline]).map Token.kind ∈ lineKinds * {[.newline]} := by
      rw [List.map_append, List.map_singleton, hnewline]
      exact Language.append_mem_mul line.kinds_mem (singleton_mem _)
    rw [List.map_append]
    exact append_mem_kstar ih hended

/-- Whole lines, at most one more line, and the tokens that end a scan are a stream. -/
theorem append_endTokens_mem {lines last : List Kind} (hlines : lines ∈ (lineKinds * {[.newline]})∗)
    (hlast : last ∈ 1 + lineKinds) (opened : Nat) (position : Position) :
    lines ++ (last ++ (endTokens opened position).map Token.kind) ∈ streamKinds := by
  have hend : (endTokens opened position).map Token.kind = List.replicate opened .dedent ++ [.endOfInput] := by
    simp [endTokens, Token.synthetic]
  rw [hend, ← List.append_assoc, ← List.append_assoc]
  exact Language.append_mem_mul (Language.append_mem_mul (Language.append_mem_mul hlines hlast)
    (replicate_mem_kstar opened _)) (singleton_mem _)

/-- The kinds of a stream are those that the grammar allows. -/
theorem Stream.kinds_mem {tokens : List Token} (h : Stream tokens) :
    tokens.map Token.kind ∈ streamKinds := by
  cases h with
  | ended position hlines =>
    rw [List.map_append]
    exact append_endTokens_mem hlines.kinds_mem (.inl Language.nil_mem_one) _ position
  | @unended before tokens line position hlines hfits =>
    rw [List.map_append, List.map_append]
    exact append_endTokens_mem hlines.kinds_mem (.inr line.kinds_mem) _ position

/-! ### Neighbours -/

/-- What holds of a token and the one behind it. -/
structure Token.Adjoins (a b : Token) : Prop where
  /-- A line end stands behind a word. -/
  newline : b.kind = .newline → a.kind.isWord = true
  /-- A word stands behind a token that opens a block. -/
  indent : a.kind = .indent → b.kind.isWord = true
  /-- No token that opens a block stands behind one that closes a block. -/
  dedent : a.kind = .dedent → b.kind ≠ .indent
  /-- Nothing stands behind the end of input. -/
  ended : a.kind ≠ .endOfInput
  /-- What opens or closes a block is placed where the token behind it starts. -/
  placed : a.kind.isBlock = true → a.start = b.start ∧ a.stop = b.start

namespace Token

variable {a b : Token} {position : Position}

/-- Behind a word any token can stand. -/
theorem adjoins_of_isWord (ha : a.kind.isWord = true) : a.Adjoins b where
  newline := fun _ => ha
  indent := fun h => absurd ha (by rw [h]; decide)
  dedent := fun h => absurd ha (by rw [h]; decide)
  ended := fun h => absurd ha (by rw [h]; decide)
  placed := fun h => absurd (Kind.isBlock_of_isWord ha) (by rw [h]; decide)

/-- Behind a line end any token but another line end can stand. -/
theorem adjoins_of_newline (ha : a.kind = .newline) (hb : b.kind ≠ .newline) : a.Adjoins b where
  newline := fun h => absurd h hb
  indent := fun h => absurd (ha.symm.trans h) (by decide)
  dedent := fun h => absurd (ha.symm.trans h) (by decide)
  ended := fun h => absurd (ha.symm.trans h) (by decide)
  placed := fun h => absurd h (by rw [ha]; decide)

/-- Behind a token that opens a block a word can stand. -/
theorem indent_adjoins (hb : b.kind.isWord = true) : (synthetic .indent b.start).Adjoins b where
  newline := fun h => absurd hb (by rw [h]; decide)
  indent := fun _ => hb
  dedent := fun h => by cases h
  ended := fun h => by cases h
  placed := fun _ => ⟨rfl, rfl⟩

/-- Behind a token that closes a block another can stand, or a word, or the end of input. -/
theorem dedent_adjoins (hnewline : b.kind ≠ .newline) (hindent : b.kind ≠ .indent)
    (hstart : b.start = position) : (synthetic .dedent position).Adjoins b where
  newline := fun h => absurd h hnewline
  indent := fun h => by cases h
  dedent := fun _ => hindent
  ended := fun h => by cases h
  placed := fun _ => ⟨hstart.symm, hstart.symm⟩

end Token

section Chains

variable {a b : Token} {tail : List Token}

/-- Tokens that close blocks stand one behind the other, in front of what can stand behind the last. -/
theorem isChain_dedents (hnewline : b.kind ≠ .newline) (hindent : b.kind ≠ .indent)
    (htail : (b :: tail).IsChain Token.Adjoins) (count : Nat) :
    (.synthetic .dedent b.start :: (List.replicate count (.synthetic .dedent b.start) ++ b :: tail)).IsChain
      Token.Adjoins := by
  induction count with
  | zero => exact .cons_cons (Token.dedent_adjoins hnewline hindent rfl) htail
  | succ count ih =>
    exact .cons_cons (Token.dedent_adjoins nofun nofun rfl) ih

/-- The tokens that end a scan stand behind a word or a line end. -/
theorem isChain_endTokens (opened : Nat) (position : Position)
    (ha : ∀ b : Token, b.kind ≠ .newline → a.Adjoins b) :
    (a :: endTokens opened position).IsChain Token.Adjoins := by
  cases opened with
  | zero => exact .cons_cons (ha _ fun h => by cases h) (.singleton _)
  | succ more =>
    have hend := @isChain_dedents (.synthetic .endOfInput position) [] nofun
      nofun (.singleton _) more
    exact .cons_cons (ha _ fun h => by cases h) hend

/-- The tokens of a logical line stand behind a line end, or at the start. -/
theorem LogicalLine.isChain (line : LogicalLine)
    (htail : ∀ a : Token, a.kind.isWord = true → (a :: tail).IsChain Token.Adjoins)
    (ha : a.kind = .newline) : (a :: (line.tokens ++ tail)).IsChain Token.Adjoins := by
  have hwords : ∀ words : List WordToken, ∀ word : WordToken,
      (word.toToken :: (words.map WordToken.toToken ++ tail)).IsChain Token.Adjoins := by
    intro words
    induction words with
    | nil => exact fun word => htail _ word.isWord
    | cons next words ih => exact fun word => .cons_cons (Token.adjoins_of_isWord word.isWord) (ih next)
  have hfirst := hwords line.more line.first
  have hkinds : line.first.kind ≠ .newline ∧ line.first.kind ≠ .indent := by
    constructor <;> intro h <;> exact absurd line.first.isWord (by rw [h]; decide)
  obtain ⟨lead, first, more⟩ := line
  cases lead with
  | level => exact .cons_cons (Token.adjoins_of_newline ha hkinds.1) hfirst
  | indent =>
    exact .cons_cons (Token.adjoins_of_newline ha fun h => by cases h)
      (.cons_cons (Token.indent_adjoins first.isWord) hfirst)
  | dedents count =>
    have hlead := isChain_dedents hkinds.1 hkinds.2 hfirst count
    rw [tokens, Lead.tokens, Lead.kinds, List.map_replicate, List.append_assoc]
    exact .cons_cons (Token.adjoins_of_newline ha fun h => by cases h) hlead

/-- The tokens of whole lines stand behind a line end, or at the start. -/
theorem Lines.isChain {opened : Nat} {tokens : List Token} (h : Lines opened tokens)
    (htail : ∀ a : Token, a.kind = .newline → (a :: tail).IsChain Token.Adjoins) :
    ∀ a : Token, a.kind = .newline → (a :: (tokens ++ tail)).IsChain Token.Adjoins := by
  induction h generalizing tail with
  | nil => exact htail
  | @line before tokens line newline hlines hfits hbalanced hnewline ih =>
    rw [List.append_assoc, List.append_assoc]
    refine ih fun a ha => line.isChain (fun b hb => ?_) ha
    exact .cons_cons (Token.adjoins_of_isWord hb) (htail newline hnewline)

/-- The tokens of a stream stand at the start as they would behind a line end. -/
theorem Stream.isChain {tokens : List Token} (h : Stream tokens) (ha : a.kind = .newline) :
    (a :: tokens).IsChain Token.Adjoins := by
  cases h with
  | ended position hlines =>
    refine hlines.isChain (fun b hb => ?_) a ha
    exact isChain_endTokens _ position fun c hc => Token.adjoins_of_newline hb hc
  | @unended before tokens line position hlines hfits =>
    refine hlines.isChain (fun b hb => line.isChain (fun c hc => ?_) hb) a ha
    exact isChain_endTokens _ position fun d _ => Token.adjoins_of_isWord hc

/-- What opens and closes blocks in front of a token is placed where the token starts. -/
theorem start_eq_of_isChain {block first : Token} {between after : List Token}
    (h : (block :: (between ++ first :: after)).IsChain Token.Adjoins) (hblock : block.kind.isBlock = true)
    (hbetween : ∀ token ∈ between, token.kind.isBlock = true) :
    block.start = first.start ∧ block.stop = first.start := by
  induction between generalizing block with
  | nil => exact h.rel.placed hblock
  | cons next between ih =>
    obtain ⟨hadjoins, hrest⟩ := List.isChain_cons_cons.1 h
    obtain ⟨hstart, hstop⟩ := hadjoins.placed hblock
    obtain ⟨hnext, -⟩ := ih hrest (hbetween next List.mem_cons_self)
      fun token htoken => hbetween token (List.mem_cons_of_mem _ htoken)
    rw [hstart, hstop]
    exact ⟨hnext, hnext⟩

end Chains

/-- The kinds of the tokens of an analysis without faults are a word of the grammar. No line end stands in
front, or behind anything but a word; no token that opens a block stands beside one that opens or closes
another; nothing stands behind the end of input. What opens or closes a block is placed where the first
token behind it starts that does not, which is the first word of a line or the end of input. -/
theorem tokens_follow_grammar {source : List Char} {tokens : List Token} (h : analyze source = .ok tokens) :
    tokens.map Token.kind ∈ streamKinds ∧ tokens.IsChain Token.Adjoins ∧
      (∀ token, tokens.head? = some token → token.kind ≠ .newline) ∧
      ∀ before block between first after, tokens = before ++ block :: (between ++ first :: after) →
        block.kind.isBlock = true → (∀ token ∈ between, token.kind.isBlock = true) →
        block.start = first.start ∧ block.stop = first.start := by
  obtain ⟨hfaults, rfl⟩ := analyze_eq_ok_iff.1 h
  have hstream := stream_tokensOf hfaults
  have hchain := @Stream.isChain (.synthetic .newline .start) _ hstream rfl
  refine ⟨hstream.kinds_mem, hchain.tail, fun token htoken hnewline => ?_, ?_⟩
  · obtain ⟨more, hmore⟩ := List.head?_eq_some_iff.1 htoken
    rw [hmore] at hchain
    cases hchain.rel.newline hnewline
  · intro before block between first after heq hblock hbetween
    have hinner := hchain.tail
    rw [heq] at hinner
    exact start_eq_of_isChain (List.isChain_append.1 hinner).2.1 hblock hbetween

/-- Brackets that join two lines, a line that closes two blocks behind a comment, and a last line with a
block of its own and no line end. -/
theorem tokens_follow_grammar_of_joined_lines :
    ∃ tokens, analyze "(a,\n b)\n c\n\td\n#\ne\n  2".toList = .ok tokens ∧
      tokens.map Token.kind ∈ streamKinds ∧ tokens.IsChain Token.Adjoins := by
  have hfaults : faultsOf "(a,\n b)\n c\n\td\n#\ne\n  2".toList = [] := by
    rw [faultsOf_eq_runFor]
    decide +kernel
  have hanalyze := analyze_eq_ok_iff.2 ⟨hfaults, rfl⟩
  obtain ⟨hkinds, hchain, -⟩ := tokens_follow_grammar hanalyze
  exact ⟨_, hanalyze, hkinds, hchain⟩

end Offside
