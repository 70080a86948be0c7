import ProtoWire.Text.Quoted

/-!
Contract: passing over JSON values of which only the form matters.

Owns:
- blanks, keywords, numbers, quoted texts, lists and records;
- the check that each has the form of JSON.

Does not own: what a value stands for.
-/

namespace ProtoWire.JsonSkip

/-- Blanks as JSON knows them. -/
def isBlank (character : Char) : Bool :=
  character == ' ' || character == '\n' || character == '\r' || character == '\t'

def blanks (text : List Char) : List Char :=
  text.dropWhile isBlank

/-- At least one digit. -/
def digits? : List Char → Option (List Char)
  | [] => none
  | first :: rest => if first.isDigit then some (rest.dropWhile Char.isDigit) else none

/-- A whole number without a needless zero in front. -/
def whole? : List Char → Option (List Char)
  | '0' :: rest => if (rest.head?.map Char.isDigit).getD false then none else some rest
  | text => digits? text

/-- The exponent of a number, if there is one. -/
def exponent? : List Char → Option (List Char)
  | letter :: rest =>
      if letter = 'e' ∨ letter = 'E' then
        match rest with
        | '+' :: more => digits? more
        | '-' :: more => digits? more
        | _ => digits? rest
      else some (letter :: rest)
  | [] => some []

/-- The digits behind the point of a number, if there is one. -/
def fraction? : List Char → Option (List Char)
  | '.' :: rest => digits? rest
  | text => some text

def number? (text : List Char) : Option (List Char) := do
  let unsigned :=
    match text with
    | '-' :: rest => rest
    | _ => text
  let behindWhole ← whole? unsigned
  let behindFraction ← fraction? behindWhole
  exponent? behindFraction

/-- A value that says yes or no, and what follows it. -/
def flag? : List Char → Option (Bool × List Char)
  | 't' :: 'r' :: 'u' :: 'e' :: rest => some (true, rest)
  | 'f' :: 'a' :: 'l' :: 's' :: 'e' :: rest => some (false, rest)
  | _ => none

mutual

/-- What follows a value; `steps` bounds the values and separators passed over. -/
def valueWithin : Nat → List Char → Option (List Char)
  | 0, _ => none
  | steps + 1, text =>
      match blanks text with
      | 'n' :: 'u' :: 'l' :: 'l' :: rest => some rest
      | 't' :: rest => (flag? ('t' :: rest)).map Prod.snd
      | 'f' :: rest => (flag? ('f' :: rest)).map Prod.snd
      | '"' :: rest => Quoted.skipBody rest
      | '[' :: rest =>
          match blanks rest with
          | ']' :: more => some more
          | _ => itemsWithin steps rest
      | '\x7b' :: rest =>
          match blanks rest with
          | '\x7d' :: more => some more
          | _ => membersWithin steps rest
      | other => number? other

/-- What follows the items of a list and its closing bracket. -/
def itemsWithin : Nat → List Char → Option (List Char)
  | 0, _ => none
  | steps + 1, text =>
      match valueWithin steps text with
      | none => none
      | some behind =>
          match blanks behind with
          | ',' :: rest => itemsWithin steps rest
          | ']' :: rest => some rest
          | _ => none

/-- What follows the members of a record and its closing brace. -/
def membersWithin : Nat → List Char → Option (List Char)
  | 0, _ => none
  | steps + 1, text =>
      match blanks text with
      | '"' :: name =>
          match (Quoted.skipBody name).map blanks with
          | some (':' :: value) =>
              match valueWithin steps value with
              | none => none
              | some behind =>
                  match blanks behind with
                  | ',' :: rest => membersWithin steps rest
                  | '\x7d' :: rest => some rest
                  | _ => none
          | _ => none
      | _ => none

end

/-- What follows a value. Every second step takes a character. -/
def value? (text : List Char) : Option (List Char) :=
  valueWithin (2 * text.length + 2) text

end ProtoWire.JsonSkip
