import Offside.Fault
import Offside.Proofs.Text.Quoted
import Offside.Token

/-!
# Listings and messages are unambiguous

A line of a token listing shows the text of the token as it stands in the source, with nothing escaped, so the text
can hold quotes, line ends and copies of whatever stands around it. The line still says which token it is: its kind is
read from the front, since no name of a kind has a comma, its place is read from the end, and the text is all that is
left between them.

A message about a fault is read in the same way. Its place stands at the end, and in front of it the words of the
message tell the sort of fault, with one character or one width behind them. Only the levels that a line could have
returned to are not in the message.
-/

namespace Offside

open Text

/-! ### Places -/

namespace Position

/-- The words around line and column. -/
theorem toList_render (p : Position) :
    p.render.toList = "line ".toList ++ Nat.toDigits 10 p.line ++ ", column ".toList ++ Nat.toDigits 10 p.column := by
  simp only [render, toString, String.toList_append, Nat.toList_repr]

/-- A place is read from the end of a text, whatever stands in front of it. -/
theorem append_render_inj {front front' : List Char} {p q : Position}
    (h : front ++ p.render.toList = front' ++ q.render.toList) :
    front = front' ∧ p.line = q.line ∧ p.column = q.column := by
  rw [toList_render, toList_render] at h
  simp only [← List.append_assoc] at h
  obtain ⟨hlines, hcolumn⟩ := append_toDigits_inj rfl h
  obtain ⟨hfront, hline⟩ := append_toDigits_inj rfl hlines
  exact ⟨hfront, hline, hcolumn⟩

end Position

/-! ### Tokens -/

/-- No name of a kind has a comma in it. -/
theorem Kind.all_name_ne_comma (kind : Kind) : kind.name.toList.all (· != ',') = true := by
  cases kind with
  | keyword word => cases word <;> decide
  | operator symbol => cases symbol <;> decide
  | delimiter symbol => cases symbol <;> decide
  | _ => decide

/-- No two kinds have the same name. -/
theorem Kind.name_inj {a b : Kind} (h : a.name = b.name) : a = b := by
  have hkind : some a = some b := by rw [← ofName?_name a, h, ofName?_name]
  exact Option.some.inj hkind

/-- A kind is read from the front of a text, up to the comma behind it. -/
theorem Kind.name_append_inj {a b : Kind} {rest rest' : List Char}
    (h : a.name.toList ++ ", '".toList ++ rest = b.name.toList ++ ", '".toList ++ rest') : a = b ∧ rest = rest' := by
  have hstop (text : List Char) : ∀ c, (", '".toList ++ text).head? = some c → (c != ',') = false := by
    intro c hc
    obtain rfl : ',' = c := Option.some.inj hc
    rfl
  rw [List.append_assoc, List.append_assoc] at h
  obtain ⟨hname, hrest⟩ := run_append_inj (List.all_eq_true.1 a.all_name_ne_comma)
    (List.all_eq_true.1 b.all_name_ne_comma) (hstop rest) (hstop rest') h
  exact ⟨name_inj (String.toList_inj.1 hname), List.append_cancel_left hrest⟩

/-- The line of a token in a listing, as a list of characters. -/
theorem Token.toList_render (token : Token) :
    token.render.toList = "Token(".toList ++ (token.kind.name.toList ++ ", '".toList ++ token.text) ++
      "' @ ".toList ++ token.start.render.toList ++ ")".toList := by
  simp only [render, String.toList_append, String.toList_ofList, List.append_assoc]

/-- Two tokens of any kinds, texts and places have the same line in a listing just where they read the same. -/
theorem tokens_listed_alike_iff (a b : Token) : a.render = b.render ↔ a.readsAs b = true := by
  rw [Token.readsAs_iff]
  constructor
  · intro h
    have hlist := congrArg String.toList h
    rw [Token.toList_render, Token.toList_render] at hlist
    obtain ⟨hfront, hline, hcolumn⟩ := Position.append_render_inj (List.append_cancel_right hlist)
    -- what stands between kind and place is the text, with no look at what is in it
    obtain ⟨hkind, htext⟩ :=
      Kind.name_append_inj (List.append_cancel_left (List.append_cancel_right hfront))
    exact ⟨hkind, htext, hline, hcolumn⟩
  · rintro ⟨hkind, htext, hline, hcolumn⟩
    rw [Token.render, Token.render, Position.render, Position.render, hkind, htext, hline, hcolumn]

example : (Token.spanning .string "'a' @ line 9, column 9)".toList Position.start).render =
    "Token(STRING, ''a' @ line 9, column 9)' @ line 1, column 0)" := by cbv

/-! ### Faults -/

/-- Two faults are of one sort and about the same character or width, whatever levels were open. -/
inductive Fault.ReadsAs : Fault → Fault → Prop
  | unterminatedString (quote : Char) : ReadsAs (.unterminatedString quote) (.unterminatedString quote)
  | unrecognisedCharacter (character : Char) :
    ReadsAs (.unrecognisedCharacter character) (.unrecognisedCharacter character)
  | inconsistentDedent (width : Nat) (expected expected' : List Nat) :
    ReadsAs (.inconsistentDedent width expected) (.inconsistentDedent width expected')

namespace Fault

/-- The words that begin the message. -/
def opening : Fault → String
  | .unterminatedString _ => "unterminated string literal opened with "
  | .unrecognisedCharacter _ => "unrecognised character: "
  | .inconsistentDedent _ _ => "inconsistent dedent to width "

/-- What the message says behind these words. -/
def subject : Fault → String
  | .unterminatedString quote => quoteChar quote
  | .unrecognisedCharacter character => quoteChar character
  | .inconsistentDedent width _ => toString width

theorem message_eq (fault : Fault) : fault.message = fault.opening ++ fault.subject := by
  cases fault <;> rfl

/-- Two faults have the same message just where they read the same. -/
theorem message_eq_iff {a b : Fault} : a.message = b.message ↔ a.ReadsAs b := by
  constructor
  · intro h
    have hlist : a.opening.toList ++ a.subject.toList = b.opening.toList ++ b.subject.toList := by
      rw [← String.toList_append, ← message_eq, h, message_eq, String.toList_append]
    have hthird := congrArg (·[2]?) hlist
    -- one sort of fault is told from another by the third character of its message
    cases a with
    | unterminatedString quote =>
      cases b with
      | unterminatedString quote' =>
        obtain rfl := quoteChar_inj (String.toList_inj.1 (List.append_cancel_left hlist))
        exact .unterminatedString quote
      | _ => simp [opening] at hthird
    | unrecognisedCharacter character =>
      cases b with
      | unrecognisedCharacter character' =>
        obtain rfl := quoteChar_inj (String.toList_inj.1 (List.append_cancel_left hlist))
        exact .unrecognisedCharacter character
      | _ => simp [opening] at hthird
    | inconsistentDedent width expected =>
      cases b with
      | inconsistentDedent width' expected' =>
        have hdigits : (toString width).toList = (toString width').toList := List.append_cancel_left hlist
        rw [Nat.toString_eq_repr, Nat.toString_eq_repr, Nat.toList_repr, Nat.toList_repr] at hdigits
        obtain rfl := toDigits_inj (by decide) (by decide) hdigits
        exact .inconsistentDedent width expected expected'
      | _ => simp [opening] at hthird
  · intro h
    cases h <;> rfl

end Fault

/-- Two faults of any sorts and places have the same line in a report just where they are of one sort, about the same
character or width, on the same line and in the same column. -/
theorem faults_reported_alike_iff (a b : LocatedFault) : a.render = b.render ↔
    a.fault.ReadsAs b.fault ∧ a.position.line = b.position.line ∧ a.position.column = b.position.column := by
  rw [← Fault.message_eq_iff]
  constructor
  · intro h
    have hlist := congrArg String.toList h
    simp only [LocatedFault.render, String.toList_append] at hlist
    obtain ⟨hmessage, hline, hcolumn⟩ := Position.append_render_inj hlist
    exact ⟨String.toList_inj.1 (List.append_cancel_right hmessage), hline, hcolumn⟩
  · rintro ⟨hmessage, hline, hcolumn⟩
    rw [LocatedFault.render, LocatedFault.render, Position.render, Position.render, hmessage, hline, hcolumn]

example : LocatedFault.render ⟨.unrecognisedCharacter '\'', Position.start⟩ =
    "unrecognised character: '\\'' at line 1, column 0" := by decide

end Offside
