/-!
Contract: sets of characters given by ranges of code points.

Owns:
- the type of such a table and membership in it.

Does not own: any table.
-/

namespace ProtoWire

/-- Inclusive ranges of code points, in ascending order. -/
abbrev CodePointRanges : Type :=
  List (Nat × Nat)

/-- Whether a character lies in one of the ranges. -/
def CodePointRanges.contains (ranges : CodePointRanges) (character : Char) : Bool :=
  ranges.any fun range => range.1 ≤ character.toNat && character.toNat ≤ range.2

end ProtoWire
