/-!
Contract: binary floating-point numbers by their bit patterns.

Owns:
- the 32-bit and the 64-bit format;
- the number that a bit pattern stands for;
- equality of numbers, in which zeros are equal and no NaN equals anything.

Does not own: decimal text.
-/

namespace ProtoWire

/-- A binary format: a sign bit, an exponent and a fraction. -/
structure FloatFormat where
  exponentBits : Nat
  fractionBits : Nat
deriving DecidableEq, Repr

namespace FloatFormat

def single : FloatFormat := ⟨8, 23⟩

def double : FloatFormat := ⟨11, 52⟩

end FloatFormat

/-- What a bit pattern stands for. -/
inductive FloatNumber where
  | nan
  | infinite (negative : Bool)
  /-- The number `mantissa * 2 ^ exponent`. `narrowBelow` holds where the next smaller
  number is only half as far away as the next larger one. -/
  | finite (negative : Bool) (mantissa : Nat) (exponent : Int) (narrowBelow : Bool)
deriving DecidableEq, Repr

namespace FloatFormat

/-- The number that a bit pattern stands for. -/
def number (format : FloatFormat) (bits : Nat) : FloatNumber :=
  let fractions := Nat.pow 2 format.fractionBits
  let exponents := Nat.pow 2 format.exponentBits
  let fraction := bits % fractions
  let biased := bits / fractions % exponents
  let negative := bits / fractions / exponents % 2 == 1
  let shift : Int := Int.ofNat (exponents / 2 - 1 + format.fractionBits)
  if biased = exponents - 1 then
    if fraction = 0 then .infinite negative else .nan
  else if biased = 0 then .finite negative fraction (1 - shift) false
  else
    .finite negative (fractions + fraction) (Int.ofNat biased - shift)
      (fraction == 0 && 1 < biased)

/-- Equality of the numbers, not of the bit patterns. -/
def equal (format : FloatFormat) (left right : Nat) : Bool :=
  match format.number left, format.number right with
  | .nan, _ => false
  | _, .nan => false
  | .finite _ 0 _ _, .finite _ 0 _ _ => true
  | _, _ => left == right

end FloatFormat

end ProtoWire
