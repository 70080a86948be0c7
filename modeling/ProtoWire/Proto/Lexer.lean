import ProtoWire.Proto.Error
import ProtoWire.Proto.Lexeme

/-!
Contract: the tokens of a source text and their positions. Blanks and comments separate
tokens and are none.

Owns:
- which lexemes are tokens;
- the position of each token, and of the first character that starts no lexeme.

Does not own: the classes of lexemes.
-/

namespace ProtoWire.Proto

/-- Blanks and comments are no tokens. -/
def Lexeme.isToken (lexeme : Lexeme) : Bool :=
  lexeme.kind != .blank && lexeme.kind != .comment

namespace Token

/-- The tokens of lexemes that stand one behind the other from a position on. -/
def ofLexemes (position : Position) : List Lexeme → List Token
  | [] => []
  | lexeme :: others =>
      let following := ofLexemes (position.advance lexeme.text) others
      if lexeme.isToken then ⟨String.ofList lexeme.text, position⟩ :: following else following

/-- The position behind lexemes that stand one behind the other. -/
def positionBehind (position : Position) (lexemes : List Lexeme) : Position :=
  lexemes.foldl (fun current lexeme => current.advance lexeme.text) position

/-- At most sixteen characters up to the next blank. -/
def snippet (text : List Char) : List Char :=
  (text.takeWhile fun character => !Text.isBlank character).take 16

/-- The tokens of a source text, with the mark at its end. -/
def scan (text : String) : Except SyntaxError (List Token) :=
  let parts := Lexeme.split text.toList
  let position := positionBehind .first parts.1
  if parts.2.isEmpty then .ok (ofLexemes .first parts.1 ++ [.ending position])
  else .error ⟨.unknownText (snippet parts.2), position⟩

end Token

end ProtoWire.Proto
