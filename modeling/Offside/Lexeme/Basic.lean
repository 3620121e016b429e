import Offside.Fault
import Offside.Kind

/-!
# Lexemes

A lexeme is the piece of text at the front of a source that one rule takes, together with what it
was read as. Every character of a source belongs to exactly one lexeme, also those that yield no
token.
-/

namespace Offside

/-- What a piece of text was read as. -/
inductive Reading where
  | blank
  | lineEnd
  | comment
  | token (kind : Kind)
  | fault (fault : Fault)
deriving DecidableEq, Repr

/-- A piece of text and what it was read as. -/
structure Lexeme where
  reading : Reading
  text : List Char
deriving DecidableEq, Repr

end Offside
