import ProtoWire.Framing
import ProtoWire.Proofs.Codec.Scalar
import ProtoWire.Proofs.Outcome

/-!
Contract: the length in front of a frame. A length that fits takes as many bytes as announced
and is read back, so that the frame behind it is cut out exactly.

Owns:
- the framings that a configuration can give;
- the size law and the round trip of the length, and of a whole frame.

Does not own: what a frame contains.
-/

namespace ProtoWire

open Outcome

namespace Framing

/-- A length in front is an integer. -/
def IsSound : Framing → Prop
  | .prefixed lengthType => lengthType.isInteger = true
  | .fixed _ => True

instance (framing : Framing) : Decidable framing.IsSound := by
  cases framing <;> unfold IsSound <;> infer_instance

theorem isSound_of_ofConfig
    {lengthType : Option String}
    {length : Option Nat}
    {framing : Framing}
    (configured : ofConfig lengthType length = .ok framing) :
    framing.IsSound := by
  unfold ofConfig at configured
  split at configured
  · split at configured
    · split at configured
      · rename_i integer
        obtain rfl := Except.ok.inj configured
        exact integer
      · cases configured
    · cases configured
  · obtain rfl := Except.ok.inj configured
    trivial
  · cases configured
  · cases configured

theorem checkLength_fixed {size length : Nat} :
    (fixed size).checkLength length = .ok () ↔ size = length := by
  unfold checkLength
  split <;> simp_all

theorem checkLength_prefixed {scalar : Scalar} {length : Nat} :
    (prefixed scalar).checkLength length = .ok () ↔ length ≤ maxLength scalar := by
  unfold checkLength
  split <;> simp_all

private theorem index_ofNat {length : Nat} (fits : length ≤ WordRange.maxInt64) :
    Zigzag.index (Int64.ofNat length).toInt = 2 * length := by
  simp only [WordRange.maxInt64] at fits
  rw [Int64.toInt_ofNat_of_lt (by omega), Zigzag.index]
  split <;> omega

private theorem sint64_ofNat {length : Nat} (fits : length ≤ WordRange.maxInt64) :
    Word.sint64 (Int64.ofNat length) = Varint.encode (2 * length % UInt64.size) := by
  rw [Word.sint64, Word.varint, Zigzag.encode64, index_ofNat fits, UInt64.toNat_ofNat']

/-- The length of a payload that fits takes as many bytes as announced. -/
theorem length_lengthBytes
    {framing : Framing}
    {length : Nat}
    (sound : framing.IsSound)
    (fits : framing.checkLength length = .ok ()) :
    (framing.lengthBytes length).length = framing.prefixSize length := by
  cases framing with
  | fixed size => rfl
  | prefixed scalar =>
      have bound := checkLength_prefixed.mp fits
      cases scalar with
      | sint32 =>
          have wide : length ≤ WordRange.maxInt64 :=
            Nat.le_trans bound (by decide)
          rw [lengthBytes, sint64_ofNat wide, Varint.length_encode]
          rfl
      | sint64 =>
          rw [lengthBytes, sint64_ofNat bound, Varint.length_encode]
          rfl
      | fixed32 | sfixed32 | fixed64 | sfixed64 => exact LittleEndian.length_encode _ _
      | int32 | int64 | uint32 | uint64 => exact Varint.length_encode length
      | bool | float | double | string | bytes => cases sound

/-! ### Reading -/

/-- Every length that an integer type holds is read back, whatever follows it. The prefix is
what the type writes for the length as a value of its own. -/
private theorem reads_signedLength
    {scalar : Scalar}
    {length : Nat}
    (integer : scalar.isInteger = true)
    (fits : length ≤ maxLength scalar) :
    (readSignedLength scalar).Reads ((prefixed scalar).lengthBytes length) length := by
  cases scalar with
  | uint32 =>
      have word : (UInt32.ofNat length).toNat = length :=
        UInt32.toNat_ofNat_of_lt' (Nat.lt_succ_of_le fits)
      have reads := (Reader.reads_uint32 (UInt32.ofNat length)).map fun number =>
        Int.ofNat number.toNat
      rwa [Word.uint32, word] at reads
  | uint64 =>
      have word : (UInt64.ofNat length).toNat = length :=
        UInt64.toNat_ofNat_of_lt' (Nat.lt_succ_of_le fits)
      have reads := (Reader.reads_varint_toNat (UInt64.ofNat length)).map fun number =>
        Int.ofNat number.toNat
      rwa [word] at reads
  | int32 =>
      have wide : (Int32.ofNat length).toInt64 = Int64.ofNat length := by
        apply Int64.toInt_inj.mp
        rw [Int32.toInt_toInt64, Int32.toInt_ofNat_of_lt (Nat.lt_succ_of_le fits),
          Int64.toInt_ofNat_of_lt (Nat.lt_of_le_of_lt fits (by decide))]
      have word : (Int64.ofNat length).toUInt64.toNat = length :=
        UInt64.toNat_ofNat_of_lt' (Nat.lt_of_le_of_lt fits (by decide))
      have reads := (Reader.reads_int32 (Int32.ofNat length)).map Int32.toInt
      rwa [Word.int32, Word.varint, wide, word,
        Int32.toInt_ofNat_of_lt (Nat.lt_succ_of_le fits)] at reads
  | int64 =>
      have word : (Int64.ofNat length).toUInt64.toNat = length :=
        UInt64.toNat_ofNat_of_lt' (Nat.lt_of_le_of_lt fits (by decide))
      have reads := (Reader.reads_int64 (Int64.ofNat length)).map Int64.toInt
      rwa [Word.int64, Word.varint, word,
        Int64.toInt_ofNat_of_lt (Nat.lt_succ_of_le fits)] at reads
  | sint32 =>
      have narrow : Word.sint32 (Int32.ofNat length) = Word.sint64 (Int64.ofNat length) := by
        simp only [maxLength, WordRange.maxInt32] at fits
        have wide : length ≤ WordRange.maxInt64 := Nat.le_trans fits (by decide)
        have index : Zigzag.index (Int32.ofNat length).toInt = 2 * length := by
          rw [Int32.toInt_ofNat_of_lt (by omega), ← Int64.toInt_ofNat_of_lt (by omega),
            index_ofNat wide]
        have word : 2 * length % 2 ^ 32 = 2 * length % UInt64.size := by
          simp only [UInt64.size]
          omega
        rw [sint64_ofNat wide, Word.sint32, Word.uint32, Zigzag.encode32, index,
          UInt32.toNat_ofNat', word]
      have reads := (Reader.reads_sint32 (Int32.ofNat length)).map Int32.toInt
      rwa [narrow, Int32.toInt_ofNat_of_lt (Nat.lt_succ_of_le fits)] at reads
  | sint64 =>
      have reads := (Reader.reads_sint64 (Int64.ofNat length)).map Int64.toInt
      rwa [Int64.toInt_ofNat_of_lt (Nat.lt_succ_of_le fits)] at reads
  | fixed32 =>
      have word : (UInt32.ofNat length).toNat = length :=
        UInt32.toNat_ofNat_of_lt' (Nat.lt_succ_of_le fits)
      have reads := (Reader.reads_fixed32 (UInt32.ofNat length)).map fun number =>
        Int.ofNat number.toNat
      rwa [Word.fixed32, word] at reads
  | sfixed32 =>
      have word : (Int32.ofNat length).toUInt32.toNat = length :=
        UInt32.toNat_ofNat_of_lt' (Nat.lt_of_le_of_lt fits (by decide))
      have reads := (Reader.reads_sfixed32 (Int32.ofNat length)).map Int32.toInt
      rwa [Word.sfixed32, Word.fixed32, word,
        Int32.toInt_ofNat_of_lt (Nat.lt_succ_of_le fits)] at reads
  | fixed64 =>
      have word : (UInt64.ofNat length).toNat = length :=
        UInt64.toNat_ofNat_of_lt' (Nat.lt_succ_of_le fits)
      have reads := (Reader.reads_fixed64 (UInt64.ofNat length)).map fun number =>
        Int.ofNat number.toNat
      rwa [Word.fixed64, word] at reads
  | sfixed64 =>
      have word : (Int64.ofNat length).toUInt64.toNat = length :=
        UInt64.toNat_ofNat_of_lt' (Nat.lt_of_le_of_lt fits (by decide))
      have reads := (Reader.reads_sfixed64 (Int64.ofNat length)).map Int64.toInt
      rwa [Word.sfixed64, Word.fixed64, word,
        Int64.toInt_ofNat_of_lt (Nat.lt_succ_of_le fits)] at reads
  | bool | float | double | string | bytes => cases integer

/-- The length of a payload that fits is read back, whatever follows it. -/
theorem reads_length
    {framing : Framing}
    {length : Nat}
    (sound : framing.IsSound)
    (fits : framing.checkLength length = .ok ()) :
    framing.readLength.Reads (framing.lengthBytes length) length := by
  cases framing with
  | fixed size =>
      obtain rfl := checkLength_fixed.mp fits
      exact Reader.reads_pure size
  | prefixed scalar =>
      have signed := reads_signedLength sound (checkLength_prefixed.mp fits)
      rw [← List.append_nil (lengthBytes _ _)]
      apply signed.bind
      have nonnegative : ¬ (length : Int) < 0 := by omega
      rw [if_neg nonnegative]
      exact Reader.reads_pure length

/-- A frame is read from its first to its last byte, whatever follows it. -/
theorem reads_payload
    {framing : Framing}
    {payload : List UInt8}
    (sound : framing.IsSound)
    (fits : framing.checkLength payload.length = .ok ()) :
    framing.readPayload.Reads (framing.lengthBytes payload.length ++ payload) payload := by
  intro offset rest
  have enough (start : Nat) : (Cursor.mk start (payload ++ rest)).has payload.length = true := by
    rw [Cursor.has_iff, Cursor.remaining, List.length_append]
    omega
  unfold readPayload
  rw [List.append_assoc, Reader.bind_get,
    Reader.bind_of_ok (reads_length sound fits offset (payload ++ rest)),
    Reader.bind_get, enough]
  have reads := Reader.reads_bytes payload (offset + (framing.lengthBytes payload.length).length) rest
  rw [List.length_append, ← Nat.add_assoc]
  exact reads

end Framing

end ProtoWire
