/-!
Contract: numbers in a fixed count of bytes, least significant byte first.

Owns:
- the bytes of a number and the number of some bytes.

Does not own: which types are four and which eight bytes wide.
-/

namespace ProtoWire.LittleEndian

/-- The `width` lowest bytes of a number. -/
def encode : Nat → Nat → List UInt8
  | 0, _ => []
  | width + 1, value => UInt8.ofNat value :: encode width (value / 256)

/-- The number that some bytes stand for. -/
def decode : List UInt8 → Nat
  | [] => 0
  | byte :: bytes => byte.toNat + 256 * decode bytes

@[simp] theorem length_encode (width value : Nat) : (encode width value).length = width := by
  induction width generalizing value with
  | zero => rfl
  | succ width step => simp [encode, step]

theorem decode_encode (width value : Nat) :
    decode (encode width value) = value % Nat.pow 256 width := by
  induction width generalizing value with
  | zero => simp [encode, decode, Nat.mod_one]
  | succ width step =>
    simp only [encode, decode, step, UInt8.toNat_ofNat']
    have split :
        value % Nat.pow 256 (width + 1) =
          value % 256 + 256 * (value / 256 % Nat.pow 256 width) := by
      rw [show Nat.pow 256 (width + 1) = 256 * Nat.pow 256 width from Nat.mul_comm .., Nat.mod_mul]
    rw [split]

end ProtoWire.LittleEndian
