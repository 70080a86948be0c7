/-!
Contract: the shortest decimal number inside of an interval around a positive number,
and of those of one length the nearest to it.

Owns:
- intervals of positive rational numbers with a common denominator;
- the search for the shortest decimal, grid by grid.

Does not own: where the interval comes from, or how the digits are printed.
-/

namespace ProtoWire

/-- The number `value / denominator` with an interval around it; `closed` says whether
the ends belong to the interval. -/
structure Interval where
  low : Nat
  value : Nat
  high : Nat
  denominator : Nat
  closed : Bool
deriving DecidableEq, Repr

/-- The number `coefficient * 10 ^ scale`. -/
structure Decimal where
  coefficient : Nat
  scale : Int
deriving DecidableEq, Repr

namespace Decimal

/-- The digits of the coefficient. -/
def digits (decimal : Decimal) : List Char :=
  Nat.toDigits 10 decimal.coefficient

/-- The same number with a coefficient that does not end in zero; `count` bounds the
zeros taken away. -/
def trimmed (decimal : Decimal) : Nat → Decimal
  | 0 => decimal
  | count + 1 =>
      if decimal.coefficient ≠ 0 ∧ decimal.coefficient % 10 = 0 then
        trimmed ⟨decimal.coefficient / 10, decimal.scale + 1⟩ count
      else decimal

end Decimal

namespace Interval

/-- The same interval in units of `10 ^ scale`. -/
def inUnits (interval : Interval) (scale : Int) : Interval :=
  let larger := Nat.pow 10 scale.toNat
  let smaller := Nat.pow 10 (-scale).toNat
  { interval with
    low := interval.low * smaller
    value := interval.value * smaller
    high := interval.high * smaller
    denominator := interval.denominator * larger }

/-- Whether a whole number lies in the interval. -/
def containsWhole (interval : Interval) (whole : Nat) : Bool :=
  let scaled := whole * interval.denominator
  if interval.closed then interval.low ≤ scaled && scaled ≤ interval.high
  else interval.low < scaled && scaled < interval.high

/-- The whole number in the interval that is nearest to the value, the larger one of two
that are equally near. The two neighbours of the value decide: if they lie outside, so do
all others. -/
def nearestWhole? (interval : Interval) : Option Nat :=
  let below := interval.value / interval.denominator
  let above := below + 1
  let toBelow := interval.value - below * interval.denominator
  let toAbove := above * interval.denominator - interval.value
  match interval.containsWhole below, interval.containsWhole above with
  | true, true => some (if toBelow < toAbove then below else above)
  | true, false => some below
  | false, true => some above
  | false, false => none

/-- The `magnitude` for which the value is at least `10 ^ (magnitude - 1)` and below
`10 ^ magnitude`. -/
def magnitude (interval : Interval) : Int :=
  if interval.denominator ≤ interval.value then
    Int.ofNat (Nat.toDigits 10 (interval.value / interval.denominator)).length
  else
    let count := (Nat.toDigits 10 (interval.denominator / interval.value)).length
    if interval.denominator ≤ interval.value * Nat.pow 10 (count - 1) then 2 - Int.ofNat count
    else 1 - Int.ofNat count

/-- The shortest decimal in the interval of at most `count` digits. -/
def shortest? (interval : Interval) (count : Nat) : Option Decimal :=
  (List.range count).findSome? fun place =>
    let scale := interval.magnitude - Int.ofNat (place + 1)
    (interval.inUnits scale).nearestWhole?.map fun coefficient =>
      (Decimal.mk coefficient scale).trimmed count

end Interval

end ProtoWire
