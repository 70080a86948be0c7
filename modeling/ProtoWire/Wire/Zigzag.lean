/-!
Contract: signed numbers written as unsigned ones, so that numbers near zero stay small:
0, -1, 1, -2, 2, … become 0, 1, 2, 3, 4, ….

Owns:
- the mapping in both directions for 32 and 64 bits.

Does not own: how the unsigned number is written.
-/

namespace ProtoWire.Zigzag

/-- The place of a signed number in the order 0, -1, 1, -2, 2, …. -/
def index (value : Int) : Nat :=
  if 0 ≤ value then 2 * value.toNat else 2 * (-value).toNat - 1

/-- The signed number at a place of that order. -/
def value (index : Nat) : Int :=
  if index % 2 = 0 then Int.ofNat (index / 2) else -Int.ofNat (index / 2) - 1

@[simp] theorem value_index (number : Int) : value (index number) = number := by
  by_cases nonnegative : 0 ≤ number
  · simp only [index, value, nonnegative, if_true]
    have even : 2 * number.toNat % 2 = 0 := by omega
    simp only [even, if_true, Int.ofNat_eq_natCast]
    omega
  · simp only [index, value, nonnegative, if_false]
    have odd : ¬ (2 * (-number).toNat - 1) % 2 = 0 := by omega
    simp only [odd, if_false, Int.ofNat_eq_natCast]
    omega

@[simp] theorem index_value (place : Nat) : index (value place) = place := by
  by_cases even : place % 2 = 0
  · simp only [value, even, if_true, index, Int.ofNat_eq_natCast]
    have nonnegative : (0 : Int) ≤ ((place / 2 : Nat) : Int) := by omega
    simp only [nonnegative, if_true]
    omega
  · simp only [value, even, if_false, index, Int.ofNat_eq_natCast]
    have negative : ¬ (0 : Int) ≤ -((place / 2 : Nat) : Int) - 1 := by omega
    simp only [negative, if_false]
    omega

/-- The 32-bit word of a 32-bit number. -/
def encode32 (number : Int32) : UInt32 :=
  UInt32.ofNat (index number.toInt)

def decode32 (word : UInt32) : Int32 :=
  Int32.ofInt (value word.toNat)

/-- The 64-bit word of a 64-bit number. -/
def encode64 (number : Int64) : UInt64 :=
  UInt64.ofNat (index number.toInt)

def decode64 (word : UInt64) : Int64 :=
  Int64.ofInt (value word.toNat)

end ProtoWire.Zigzag
