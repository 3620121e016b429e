/-!
# Source text

A source text is a list of characters, so that reading it is recursion on it. This module has the
character classes of the language and the length of a text in UTF-8 bytes.

Letters and digits here are ASCII only; any other character is outside the language, except inside
comments and string literals.
-/

namespace Offside.Text

/-- The number of bytes a text takes in UTF-8. -/
def byteLength : List Char → Nat
  | [] => 0
  | c :: cs => c.utf8Size + byteLength cs

@[simp] theorem byteLength_nil : byteLength [] = 0 := rfl

@[simp] theorem byteLength_cons (c : Char) (cs : List Char) :
    byteLength (c :: cs) = c.utf8Size + byteLength cs := rfl

@[simp] theorem byteLength_append (a b : List Char) :
    byteLength (a ++ b) = byteLength a + byteLength b := by
  induction a with
  | nil => simp
  | cons c cs ih => simp [ih, Nat.add_assoc]

/-- The characters that the first `bytes` bytes of a text encode, unless these end inside a character
or there are fewer. -/
def takeBytes? : Nat → List Char → Option (List Char)
  | 0, _ => some []
  | _ + 1, [] => none
  | bytes + 1, c :: cs =>
    if bytes + 1 < c.utf8Size then none
    else (takeBytes? (bytes + 1 - c.utf8Size) cs).map (c :: ·)

/-- The characters of so many bytes take up that many bytes. -/
theorem byteLength_of_takeBytes? {bytes : Nat} {text front : List Char}
    (h : takeBytes? bytes text = some front) : byteLength front = bytes := by
  fun_induction takeBytes? bytes text generalizing front with
  | case1 => cases h; rfl
  | case2 => cases h
  | case3 => cases h
  | case4 bytes c cs _ ih =>
    obtain ⟨inner, hinner, rfl⟩ := Option.map_eq_some_iff.1 h
    rw [byteLength_cons, ih hinner]
    omega

/-- The characters of the first bytes are a beginning of the text. -/
theorem prefix_of_takeBytes? {bytes : Nat} {text front : List Char}
    (h : takeBytes? bytes text = some front) : front <+: text := by
  fun_induction takeBytes? bytes text generalizing front with
  | case1 => cases h; exact List.nil_prefix
  | case2 => cases h
  | case3 => cases h
  | case4 bytes c cs _ ih =>
    obtain ⟨inner, hinner, rfl⟩ := Option.map_eq_some_iff.1 h
    exact List.cons_prefix_cons.2 ⟨rfl, ih hinner⟩

/-- Space, tab and form feed separate lexemes and make up the margin of a line. -/
def isBlank (c : Char) : Bool :=
  c == ' ' || c == '\t' || c == '\x0c'

/-- Line feed and carriage return, alone or as a pair, end a line. -/
def isLineEnd (c : Char) : Bool :=
  c == '\n' || c == '\r'

/-- The two characters that open and close a string literal. -/
def isQuote (c : Char) : Bool :=
  c == '"' || c == '\''

/-- A name starts with an ASCII letter or an underscore. -/
def isNameStart (c : Char) : Bool :=
  c.isAlpha || c == '_'

/-- A name goes on with ASCII letters, digits and underscores. -/
def isNameChar (c : Char) : Bool :=
  c.isAlphanum || c == '_'

end Offside.Text
