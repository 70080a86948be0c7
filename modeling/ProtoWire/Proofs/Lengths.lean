import Mathlib.Order.Bounds.Basic
import ProtoWire.Proofs.Framing
import ProtoWire.Proofs.Wire.Emission

/-!
Contract: the range of the length in front of a frame. It is the range of the integer type that
the length is written in, and inside of it writing and reading are inverse to each other.

Owns:
- the integers that a scalar type holds, and the largest of them;
- the lengths that a framing admits;
- writing a length behind a buffer, and what it leaves there.

Does not own: the payload behind a length.
-/

namespace ProtoWire

/-- The integers that a scalar type holds. -/
def Scalar.numbers : Scalar → Set Int
  | .int32 | .sint32 | .sfixed32 => Set.range Int32.toInt
  | .int64 | .sint64 | .sfixed64 => Set.range Int64.toInt
  | .uint32 | .fixed32 => Set.range fun word : UInt32 => (word.toNat : Int)
  | .uint64 | .fixed64 => Set.range fun word : UInt64 => (word.toNat : Int)
  | .bool | .float | .double | .string | .bytes => ∅

namespace Framing

private theorem isGreatest_range
    {Word : Type}
    {value : Word → Int}
    {largest : Nat}
    (top : Word)
    (attained : value top = largest)
    (below : ∀ word, value word < largest + 1) :
    IsGreatest (Set.range value) largest := by
  refine ⟨⟨top, attained⟩, ?_⟩
  rintro number ⟨word, rfl⟩
  exact Int.le_of_lt_add_one (below word)

/-- The bound on a length is the largest value of the type that it is written in. -/
theorem isGreatest_maxLength {scalar : Scalar} (integer : scalar.isInteger = true) :
    IsGreatest scalar.numbers (maxLength scalar) := by
  cases scalar with
  | int32 | sint32 | sfixed32 => exact isGreatest_range Int32.maxValue rfl Int32.toInt_lt
  | int64 | sint64 | sfixed64 => exact isGreatest_range Int64.maxValue rfl Int64.toInt_lt
  | uint32 | fixed32 =>
      apply isGreatest_range (UInt32.ofNat WordRange.maxUInt32) rfl
      exact fun word => Int.ofNat_lt.mpr word.toNat_lt
  | uint64 | fixed64 =>
      apply isGreatest_range (UInt64.ofNat WordRange.maxUInt64) rfl
      exact fun word => Int.ofNat_lt.mpr word.toNat_lt
  | bool | float | double | string | bytes => cases integer

/-- A length in front is one that its type can hold, and a fixed length is the only one. -/
def Admits : Framing → Nat → Prop
  | .prefixed scalar, length => ∃ largest, IsGreatest scalar.numbers largest ∧ length ≤ largest
  | .fixed size, length => length = size

/-- The length is checked against what the framing admits, and nothing else. -/
theorem checkLength_eq_ok
    {framing : Framing}
    {length : Nat}
    (sound : framing.IsSound) :
    framing.checkLength length = .ok () ↔ framing.Admits length := by
  cases framing with
  | fixed size => exact checkLength_fixed.trans eq_comm
  | prefixed scalar =>
      have bound := isGreatest_maxLength sound
      rw [checkLength_prefixed]
      constructor
      · exact fun fits => ⟨maxLength scalar, bound, Int.ofNat_le.mpr fits⟩
      · rintro ⟨largest, isLargest, fits⟩
        rwa [← bound.unique isLargest, Int.ofNat_le] at fits

/-! ### Writing -/

/-- A buffer behind the length of a payload, and the outcome of writing it. -/
def writeLength (framing : Framing) (length : Nat) (buffer : List UInt8) :
    List UInt8 × Except WireError Unit :=
  (Emission.ofExcept (framing.encodeLength length)).appendTo buffer

theorem writeLength_of_ok
    {framing : Framing}
    {length : Nat}
    (fits : framing.checkLength length = .ok ())
    (buffer : List UInt8) :
    framing.writeLength length buffer = (buffer ++ framing.lengthBytes length, .ok ()) := by
  rw [writeLength, encodeLength, fits]
  rfl

/-- A length that is refused leaves no bytes behind. -/
theorem writeLength_of_error
    {framing : Framing}
    {length : Nat}
    {cause : WireError}
    (refused : framing.checkLength length = .error cause)
    (buffer : List UInt8) :
    framing.writeLength length buffer = (buffer, .error cause) := by
  rw [writeLength, encodeLength, refused]
  change (buffer ++ [], Except.error cause) = _
  rw [List.append_nil]

/-- The length in front of a frame is written and read back over the whole range of its type,
as many bytes as announced, and outside of this range nothing is written. A fixed length is
neither written nor read. -/
theorem length_roundTrip
    {lengthType : Option String}
    {size : Option Nat}
    {framing : Framing}
    (configured : ofConfig lengthType size = .ok framing)
    (length : Nat) :
    (framing.checkLength length = .ok () ↔ framing.Admits length) ∧
      (framing.Admits length →
        ∃ written, written.length = framing.prefixSize length ∧
          (∀ buffer, framing.writeLength length buffer = (buffer ++ written, .ok ())) ∧
          ∀ offset rest,
            framing.readLength ⟨offset, written ++ rest⟩ =
              .ok length ⟨offset + written.length, rest⟩) ∧
      (¬ framing.Admits length →
        ∃ cause, framing.checkLength length = .error cause ∧
          ∀ buffer, framing.writeLength length buffer = (buffer, .error cause)) ∧
      ∀ fixedLength, framing = .fixed fixedLength →
        framing.prefixSize length = 0 ∧
          ∀ cursor, framing.readLength cursor = .ok fixedLength cursor := by
  have sound := isSound_of_ofConfig configured
  have checked : framing.checkLength length = .ok () ↔ framing.Admits length :=
    checkLength_eq_ok sound
  refine ⟨checked, fun admitted => ?_, fun refused => ?_, ?_⟩
  · have fits := checked.mpr admitted
    exact ⟨framing.lengthBytes length, length_lengthBytes sound fits, writeLength_of_ok fits,
      reads_length sound fits⟩
  · cases outcome : framing.checkLength length with
    | ok done => exact absurd (checked.mp outcome) refused
    | error cause => exact ⟨cause, rfl, writeLength_of_error outcome⟩
  · rintro fixedLength rfl
    exact ⟨rfl, fun _ => rfl⟩

/-- The largest length of 32 bits with a sign takes five bytes, and the next one is refused. -/
theorem length_roundTrip_sint32 :
    ∃ framing, ofConfig (some "sint32") none = .ok framing ∧
      (∃ written, written.length = 5 ∧
        (∀ buffer, framing.writeLength 2147483647 buffer = (buffer ++ written, .ok ())) ∧
        ∀ offset rest,
          framing.readLength ⟨offset, written ++ rest⟩ =
            .ok 2147483647 ⟨offset + written.length, rest⟩) ∧
      ∃ cause, framing.checkLength 2147483648 = .error cause ∧
        ∀ buffer, framing.writeLength 2147483648 buffer = (buffer, .error cause) := by
  have configured : ofConfig (some "sint32") none = .ok (.prefixed .sint32) := rfl
  obtain ⟨accepts, accepted, -⟩ := length_roundTrip configured 2147483647
  obtain ⟨refuses, -, refused, -⟩ := length_roundTrip configured 2147483648
  have fits : (prefixed .sint32).Admits 2147483647 := accepts.mp rfl
  have overflows : ¬ (prefixed .sint32).Admits 2147483648 :=
    fun admitted => nomatch refuses.mpr admitted
  exact ⟨_, configured, accepted fits, refused overflows⟩

end Framing

end ProtoWire
