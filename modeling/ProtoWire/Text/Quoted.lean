import ProtoWire.Text.Hex

/-!
Contract: text in double quotes, with the escapes of JSON.

Owns:
- writing text in quotes: quotes, backslashes and control characters are escaped;
- reading it back: every JSON escape, and pairs of surrogates as one character;
- passing over a quoted text without reading it.

Does not own: what stands before or behind the quotes.
-/

namespace ProtoWire.Quoted

/-- A character inside of the quotes. -/
def escape (character : Char) : List Char :=
  match character with
  | '"' => ['\\', '"']
  | '\\' => ['\\', '\\']
  | '\n' => ['\\', 'n']
  | '\r' => ['\\', 'r']
  | '\t' => ['\\', 't']
  | '\x08' => ['\\', 'b']
  | '\x0c' => ['\\', 'f']
  | _ =>
      if character.toNat < 32 then '\\' :: 'u' :: Hex.fixed 4 character.toNat
      else [character]

/-- Text in quotes. -/
def encode (text : List Char) : List Char :=
  '"' :: (text.flatMap escape ++ ['"'])

/-- Text in quotes. -/
def quote (text : String) : String :=
  String.ofList (encode text.toList)

/-- The character that a one-letter escape stands for. -/
def escaped? : Char → Option Char
  | '"' => some '"'
  | '\\' => some '\\'
  | '/' => some '/'
  | 'b' => some '\x08'
  | 'f' => some '\x0c'
  | 'n' => some '\n'
  | 'r' => some '\r'
  | 't' => some '\t'
  | _ => none

def isHighSurrogate (unit : Nat) : Bool :=
  0xD800 ≤ unit && unit < 0xDC00

def isLowSurrogate (unit : Nat) : Bool :=
  0xDC00 ≤ unit && unit < 0xE000

/-- The code point that a pair of surrogates stands for. -/
def joinSurrogates (high low : Nat) : Nat :=
  0x10000 + (high - 0xD800) * 0x400 + (low - 0xDC00)

/-- The text up to the closing quote, and what follows that quote. A surrogate without
its partner, an unknown escape and a bare control character are refused. -/
def decodeBody : List Char → Option (List Char × List Char)
  | [] => none
  | '"' :: rest => some ([], rest)
  | '\\' :: 'u' :: a :: b :: c :: d :: rest =>
      match Hex.number? [a, b, c, d] with
      | none => none
      | some unit =>
          if isHighSurrogate unit then
            match rest with
            | '\\' :: 'u' :: e :: f :: g :: h :: more =>
                match Hex.number? [e, f, g, h] with
                | none => none
                | some low =>
                    if isLowSurrogate low then
                      (decodeBody more).map fun (text, behind) =>
                        (Char.ofNat (joinSurrogates unit low) :: text, behind)
                    else none
            | _ => none
          else if isLowSurrogate unit then none
          else
            (decodeBody rest).map fun (text, behind) => (Char.ofNat unit :: text, behind)
  | '\\' :: letter :: rest =>
      match escaped? letter with
      | none => none
      | some character => (decodeBody rest).map fun (text, behind) => (character :: text, behind)
  | character :: rest =>
      if character.toNat < 32 || character = '\\' then none
      else (decodeBody rest).map fun (text, behind) => (character :: text, behind)

/-- What follows the closing quote. Escapes are checked for their form only. -/
def skipBody : List Char → Option (List Char)
  | [] => none
  | '"' :: rest => some rest
  | '\\' :: 'u' :: a :: b :: c :: d :: rest =>
      if (Hex.number? [a, b, c, d]).isSome then skipBody rest else none
  | '\\' :: letter :: rest => if (escaped? letter).isSome then skipBody rest else none
  | character :: rest =>
      if character.toNat < 32 || character = '\\' then none else skipBody rest

end ProtoWire.Quoted
