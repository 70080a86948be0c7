/-!
Contract: numbers in base 128, least significant group first, with the top bit
of a byte set when another group follows.

Owns:
- the written form of a number and its length;
- the unfolding of the written form, group by group.

Does not own: reading a number from a position in a buffer.
-/

namespace ProtoWire.Varint

/-- The most groups that a number of 64 bits needs. -/
def maxGroups : Nat := 10

/-- Every group but the last carries the top bit. -/
def encode (value : Nat) : List UInt8 :=
  if value < 128 then [UInt8.ofNat value]
  else UInt8.ofNat (value % 128 + 128) :: encode (value / 128)
termination_by value
decreasing_by omega

/-- A group holds seven bits, and zero takes one group. -/
def size (value : Nat) : Nat :=
  value.log2 / 7 + 1

theorem encode_of_lt {value : Nat} (small : value < 128) :
    encode value = [UInt8.ofNat value] := by
  rw [encode, if_pos small]

theorem encode_of_le {value : Nat} (large : 128 ≤ value) :
    encode value = UInt8.ofNat (value % 128 + 128) :: encode (value / 128) := by
  rw [encode, if_neg (Nat.not_lt.mpr large)]

private theorem log2_div_step {value : Nat} (large : 128 ≤ value) :
    value.log2 = (value / 128).log2 + 7 := by
  have nonzero : value ≠ 0 := by omega
  have quotientNonzero : value / 128 ≠ 0 := by omega
  apply Nat.le_antisymm
  · have upper : value < 2 ^ ((value / 128).log2 + 8) := by
      have below : value / 128 < 2 ^ ((value / 128).log2 + 1) := Nat.lt_log2_self
      rw [show (value / 128).log2 + 8 = ((value / 128).log2 + 1) + 7 by omega, Nat.pow_add]
      omega
    have := (Nat.log2_lt nonzero).mpr upper
    omega
  · have lower : 2 ^ (value / 128).log2 ≤ value / 128 := Nat.log2_self_le quotientNonzero
    apply (Nat.le_log2 nonzero).mpr
    rw [Nat.pow_add]
    omega

/-- The size formula counts the written groups. -/
theorem length_encode (value : Nat) : (encode value).length = size value := by
  induction value using Nat.strongRecOn with
  | _ value step =>
    by_cases small : value < 128
    · have bits : value.log2 < 7 := by
        by_cases zero : value = 0
        · subst zero
          decide
        · exact (Nat.log2_lt zero).mpr small
      rw [encode_of_lt small, size]
      simp only [List.length_singleton]
      omega
    · have large : 128 ≤ value := Nat.le_of_not_lt small
      rw [encode_of_le large, List.length_cons, step (value / 128) (by omega), size, size,
        log2_div_step large]
      omega

end ProtoWire.Varint
