import ProtoWire.Number.WordRange
import ProtoWire.Proto.Lexeme
import ProtoWire.Text.JsonSkip

/-!
Contract: which texts serve as identifiers, type names, integers and strings, and what
integers and strings stand for.

Owns:
- the tests on the text of a token;
- the value of an integer and of a string.

Does not own: where the grammar asks for them.
-/

namespace ProtoWire.Proto.TokenClass

/-- One name. -/
def isIdentifier (text : String) : Bool :=
  match text.toList with
  | [] => false
  | first :: rest => Lexeme.isNameStart first && rest.all Lexeme.isNamePart

/-- Whether names joined by points go on; `fresh` holds where a name has to start. -/
def namesGoOn (fresh : Bool) : List Char → Bool
  | [] => !fresh
  | character :: rest =>
      if fresh then Lexeme.isNameStart character && namesGoOn false rest
      else if character = '.' then namesGoOn true rest
      else Lexeme.isNamePart character && namesGoOn false rest

/-- Names joined by points, perhaps behind a point. -/
def isTypeName (text : String) : Bool :=
  match text.toList with
  | '.' :: rest => namesGoOn true rest
  | characters => namesGoOn true characters

/-- Digits of any script, or hexadecimal digits behind a zero and a letter X. -/
def isMagnitude : List Char → Bool
  | '0' :: letter :: rest =>
      if letter = 'x' ∨ letter = 'X' then !rest.isEmpty && rest.all Lexeme.isHexDigit
      else ('0' :: letter :: rest).all Text.isAnyDigit
  | digits => !digits.isEmpty && digits.all Text.isAnyDigit

/-- A whole number, perhaps behind a minus sign. -/
def isInteger (text : String) : Bool :=
  match text.toList with
  | '-' :: rest => isMagnitude rest
  | characters => isMagnitude characters

def isMark (character : Char) : Bool :=
  character == '"' || character == '\''

/-- A text on one line between two marks, which need not be equal. -/
def isString (text : String) : Bool :=
  match text.toList with
  | [] => false
  | first :: rest =>
      isMark first && rest.getLast?.any isMark && rest.dropLast.all (· != '\n')

/-- The number that decimal digits of ASCII stand for. -/
def decimalValue? (digits : List Char) : Option Nat :=
  if digits.isEmpty || !digits.all Char.isDigit then none
  else some (digits.foldl (fun sum digit => sum * 10 + (digit.toNat - 48)) 0)

/-- The number that hexadecimal digits stand for. -/
def hexValue? (digits : List Char) : Option Nat :=
  if digits.isEmpty then none else Hex.number? digits

/-- The number behind the sign. -/
def magnitudeValue? : List Char → Option Nat
  | '0' :: 'x' :: digits => hexValue? digits
  | '0' :: 'X' :: digits => hexValue? digits
  | digits => decimalValue? digits

/-- The number that an integer stands for. -/
def integerValue? (text : String) : Option Int :=
  match text.toList with
  | '-' :: rest => (magnitudeValue? rest).map fun magnitude => -Int.ofNat magnitude
  | characters => (magnitudeValue? characters).map Int.ofNat

/-- An integer of at most 32 bits without a sign. -/
def unsignedValue? (text : String) : Option Nat := do
  let value ← integerValue? text
  if 0 ≤ value ∧ value ≤ WordRange.maxUInt32 then some value.toNat else none

/-- An integer of at most 32 bits with a sign. -/
def signedValue? (text : String) : Option Int32 := do
  let value ← integerValue? text
  if -WordRange.maxInt32 - 1 ≤ value ∧ value ≤ WordRange.maxInt32 then
    some (Int32.ofInt value)
  else none

/-- Removes the backslash in front of each single quote. -/
def unescapeSingle : List Char → List Char
  | '\\' :: '\'' :: rest => '\'' :: unescapeSingle rest
  | character :: rest => character :: unescapeSingle rest
  | [] => []

/-- The text that a string stands for. Between double quotes the escapes of JSON apply, and
blanks may follow; between single quotes only the quote itself is escaped. -/
def stringValue? (text : String) : Option String :=
  match text.toList with
  | '"' :: rest =>
      match Quoted.decodeBody rest with
      | some (content, behind) =>
          if behind.all JsonSkip.isBlank then some (String.ofList content) else none
      | none => none
  | '\'' :: rest =>
      if rest.getLast? = some '\'' then some (String.ofList (unescapeSingle rest.dropLast))
      else none
  | _ => none

end ProtoWire.Proto.TokenClass
