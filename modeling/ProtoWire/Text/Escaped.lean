import ProtoWire.Text.Hex
import ProtoWire.Text.Printable

/-!
Contract: text in double quotes for a human reader: what cannot be seen is written by
its code point.

Owns:
- the short escapes and the form of a code point.

Does not own: which characters can be seen.
-/

namespace ProtoWire.Escaped

/-- A code point by its number in braces. -/
def codePoint (character : Char) : List Char :=
  '\\' :: 'u' :: '\x7b' :: (Hex.shortest character.toNat ++ ['\x7d'])

/-- A character inside of the quotes. -/
def escape (character : Char) : List Char :=
  match character with
  | '\x00' => ['\\', '0']
  | '\t' => ['\\', 't']
  | '\r' => ['\\', 'r']
  | '\n' => ['\\', 'n']
  | '"' => ['\\', '"']
  | '\\' => ['\\', '\\']
  | _ =>
      if Text.isExtender character || !Text.isPrintable character then codePoint character
      else [character]

/-- Text in quotes. -/
def quote (text : String) : String :=
  String.ofList ('"' :: (text.toList.flatMap escape ++ ['"']))

end ProtoWire.Escaped
