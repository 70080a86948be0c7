import ProtoWire.Number.FloatFormat
import ProtoWire.Number.Shortest

/-!
Contract: floating-point numbers as the shortest decimal text that reads back as the
same number.

Owns:
- the interval of the numbers that round to a floating-point number;
- the choice between positional and scientific notation;
- the texts of NaN, the infinities and the zeros.

Does not own: the search for the shortest decimal.
-/

namespace ProtoWire

/-- The numbers that are nearer to `mantissa * 2 ^ exponent` than to its neighbours. An
even mantissa takes the midpoints as well. -/
def Interval.around (mantissa : Nat) (exponent : Int) (narrowBelow : Bool) : Interval :=
  let larger := Nat.pow 2 (exponent - 2).toNat
  let smaller := Nat.pow 2 (2 - exponent).toNat
  { low := (4 * mantissa - if narrowBelow then 1 else 2) * larger
    value := 4 * mantissa * larger
    high := (4 * mantissa + 2) * larger
    denominator := smaller
    closed := mantissa % 2 == 0 }

namespace FloatText

/-- No number of 64 bits needs more digits. -/
def maxDigits : Nat := 17

/-- From four zeros behind the point on, small numbers are written with an exponent. -/
def smallestMagnitude : Int := -3

/-- With more than sixteen digits in front of the point, large numbers are written with an
exponent. -/
def largestMagnitude : Int := 16

/-- Digits with a point, and at least one digit on either side of it. -/
def positional (digits : List Char) (magnitude : Int) : List Char :=
  if magnitude ≤ 0 then
    '0' :: '.' :: (List.replicate (-magnitude).toNat '0' ++ digits)
  else
    let whole := magnitude.toNat
    if digits.length ≤ whole then
      digits ++ List.replicate (whole - digits.length) '0' ++ ['.', '0']
    else digits.take whole ++ '.' :: digits.drop whole

/-- One digit, the others behind a point, and the exponent of the first one. -/
def scientific (digits : List Char) (magnitude : Int) : List Char :=
  let mantissa :=
    match digits with
    | first :: second :: others => first :: '.' :: second :: others
    | _ => digits
  mantissa ++ 'e' :: (toString (magnitude - 1)).toList

def ofDecimal (decimal : Decimal) : List Char :=
  let digits := decimal.digits
  let magnitude := Int.ofNat digits.length + decimal.scale
  if smallestMagnitude ≤ magnitude ∧ magnitude ≤ largestMagnitude then
    positional digits magnitude
  else scientific digits magnitude

def sign (negative : Bool) : List Char :=
  if negative then ['-'] else []

def ofNumber : FloatNumber → List Char
  | .nan => "NaN".toList
  | .infinite negative => sign negative ++ "inf".toList
  | .finite negative 0 _ _ => sign negative ++ "0.0".toList
  | .finite negative mantissa exponent narrowBelow =>
      let interval := Interval.around mantissa exponent narrowBelow
      sign negative ++ ((interval.shortest? maxDigits).map ofDecimal).getD []

end FloatText

/-- The text of the number that a bit pattern stands for. -/
def FloatFormat.text (format : FloatFormat) (bits : Nat) : String :=
  String.ofList (FloatText.ofNumber (format.number bits))

end ProtoWire
