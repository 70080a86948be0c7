/-!
Contract: positions in a source text, and the tokens that the grammar is made of.

Owns:
- lines and columns, counted in characters from one;
- tokens, the last of which is empty and marks the end of the text.

Does not own: which texts are tokens.
-/

namespace ProtoWire.Proto

/-- A line and a column. -/
structure Position where
  line : Nat
  column : Nat
deriving DecidableEq, Repr

namespace Position

/-- The position of the first character. -/
def first : Position :=
  ⟨1, 1⟩

/-- The position behind a character. Only a line feed starts a new line. -/
def next (position : Position) (character : Char) : Position :=
  if character = '\n' then ⟨position.line + 1, 1⟩ else ⟨position.line, position.column + 1⟩

/-- The position behind a text. -/
def advance (position : Position) (text : List Char) : Position :=
  text.foldl next position

theorem advance_append (position : Position) (first second : List Char) :
    position.advance (first ++ second) = (position.advance first).advance second :=
  List.foldl_append

end Position

/-- A text and the position of its first character. -/
structure Token where
  text : String
  position : Position
deriving DecidableEq, Repr

/-- The mark at the end of a text. -/
def Token.ending (position : Position) : Token :=
  ⟨"", position⟩

end ProtoWire.Proto
