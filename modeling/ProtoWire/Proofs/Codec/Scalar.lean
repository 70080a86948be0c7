import ProtoWire.Proofs.Wire.Reading

/-!
Contract: scalar values on the wire. What is written for a value has the size that was
announced for it, and is read as this value, bit for bit.

Owns:
- the size law and the round trip of every scalar type;
- the kind of value that each type holds.

Does not own: keys and lengths around scalar values.
-/

namespace ProtoWire

/-! ### Words -/

namespace Zigzag

private theorem index_lt {number : Int} (bound : Nat)
    (below : -(bound : Int) ≤ number)
    (above : number < bound) :
    index number < 2 * bound := by
  unfold index
  split <;> omega

theorem decode32_encode32 (number : Int32) : decode32 (encode32 number) = number := by
  have small : index number.toInt < UInt32.size :=
    index_lt (2 ^ 31) number.le_toInt number.toInt_lt
  rw [encode32, decode32, UInt32.toNat_ofNat_of_lt' small, value_index, Int32.ofInt_toInt]

theorem decode64_encode64 (number : Int64) : decode64 (encode64 number) = number := by
  have small : index number.toInt < UInt64.size :=
    index_lt (2 ^ 63) number.le_toInt number.toInt_lt
  rw [encode64, decode64, UInt64.toNat_ofNat_of_lt' small, value_index, Int64.ofInt_toInt]

theorem value_mem (bound : Nat) {place : Nat} (small : place < 2 * bound) :
    -(bound : Int) ≤ value place ∧ value place < bound := by
  unfold value
  split <;> simp only [Int.ofNat_eq_natCast] <;> omega

theorem toInt_decode32 (word : UInt32) : (decode32 word).toInt = value word.toNat := by
  obtain ⟨below, above⟩ := value_mem (2 ^ 31) word.toNat_lt
  exact Int32.toInt_ofInt_of_le below above

theorem toInt_decode64 (word : UInt64) : (decode64 word).toInt = value word.toNat := by
  obtain ⟨below, above⟩ := value_mem (2 ^ 63) word.toNat_lt
  exact Int64.toInt_ofInt_of_le below above

end Zigzag

namespace Reader

theorem reads_uint32 (number : UInt32) : uint32.Reads (Word.uint32 number) number := by
  have reads := (reads_varint_toNat number.toUInt64).map UInt64.toUInt32
  rwa [UInt32.toNat_toUInt64, UInt32.toUInt32_toUInt64] at reads

theorem reads_int64 (number : Int64) : int64.Reads (Word.int64 number) number := by
  have reads := (reads_varint_toNat number.toUInt64).map UInt64.toInt64
  rwa [Int64.toInt64_toUInt64] at reads

theorem reads_int32 (number : Int32) : int32.Reads (Word.int32 number) number := by
  have reads :=
    (reads_varint_toNat number.toInt64.toUInt64).map fun word => word.toUInt32.toInt32
  have same : number.toInt64.toUInt64.toUInt32.toInt32 = number := by
    apply Int32.toBitVec_inj.mp
    change (number.toBitVec.signExtend 64).setWidth 32 = number.toBitVec
    ext place bound
    simp [bound, BitVec.getLsbD_signExtend]
    omega
  rwa [same] at reads

theorem reads_sint32 (number : Int32) : sint32.Reads (Word.sint32 number) number := by
  have reads :=
    (reads_varint_toNat (Zigzag.encode32 number).toUInt64).map fun word =>
      Zigzag.decode32 word.toUInt32
  rwa [UInt32.toNat_toUInt64, UInt32.toUInt32_toUInt64, Zigzag.decode32_encode32] at reads

theorem reads_sint64 (number : Int64) : sint64.Reads (Word.sint64 number) number := by
  have reads := (reads_varint_toNat (Zigzag.encode64 number)).map Zigzag.decode64
  rwa [Zigzag.decode64_encode64] at reads

theorem reads_bool (flag : Bool) : bool.Reads (Word.bool flag) flag := by
  have reads (word : UInt64) : bool.Reads (Varint.encode word.toNat) (word != 0) :=
    (reads_varint_toNat word).map fun word => word != 0
  cases flag with
  | false =>
      have zero := reads 0
      rwa [Varint.encode_of_lt (by decide)] at zero
  | true =>
      have one := reads 1
      rwa [Varint.encode_of_lt (by decide)] at one

theorem reads_fixed32 (number : UInt32) : fixed32.Reads (Word.fixed32 number) number := by
  have reads := (reads_bytes (Word.fixed32 number)).map fun run =>
    UInt32.ofNat (LittleEndian.decode run)
  have small : number.toNat % Nat.pow 256 4 = number.toNat := Nat.mod_eq_of_lt number.toNat_lt
  rwa [Word.fixed32, LittleEndian.length_encode, LittleEndian.decode_encode, small,
    UInt32.ofNat_toNat] at reads

theorem reads_fixed64 (number : UInt64) : fixed64.Reads (Word.fixed64 number) number := by
  have reads := (reads_bytes (Word.fixed64 number)).map fun run =>
    UInt64.ofNat (LittleEndian.decode run)
  have small : number.toNat % Nat.pow 256 8 = number.toNat := Nat.mod_eq_of_lt number.toNat_lt
  rwa [Word.fixed64, LittleEndian.length_encode, LittleEndian.decode_encode, small,
    UInt64.ofNat_toNat] at reads

theorem reads_sfixed32 (number : Int32) : sfixed32.Reads (Word.sfixed32 number) number := by
  have reads := (reads_fixed32 number.toUInt32).map UInt32.toInt32
  rwa [Int32.toInt32_toUInt32] at reads

theorem reads_sfixed64 (number : Int64) : sfixed64.Reads (Word.sfixed64 number) number := by
  have reads := (reads_fixed64 number.toUInt64).map UInt64.toInt64
  rwa [Int64.toInt64_toUInt64] at reads

theorem exhausts_rest (run : List UInt8) : rest.Exhausts run run :=
  fun _ => rfl

theorem decodeText?_text (content : String) :
    decodeText? (Word.text content) = some content := by
  have bytes : content.toUTF8.data.toList.toByteArray = content.toByteArray := by
    apply ByteArray.ext
    rw [List.data_toByteArray]
    rfl
  rw [decodeText?, Word.text, bytes]
  exact dif_pos content.isValidUTF8

theorem exhausts_restAsText (content : String) : restAsText.Exhausts (Word.text content) content := by
  intro offset
  unfold restAsText
  rw [bind_of_ok (exhausts_rest (Word.text content) offset), decodeText?_text]
  rfl

end Reader

namespace Scalar

/-- What is written for a value takes as many bytes as announced. -/
theorem length_encode (scalar : Scalar) (value : Value) :
    List.length <$> scalar.encode value = scalar.size value := by
  unfold encode size
  split
  case h_16 => rfl
  all_goals
    apply congrArg Except.ok
    first
    | exact Varint.length_encode _
    | exact LittleEndian.length_encode _ _
    | rfl

/-- A scalar that delimits itself is read back, whatever follows it. -/
theorem reads_of_encode
    {scalar : Scalar}
    {value : Value}
    {bytes : List UInt8}
    (written : scalar.encode value = .ok bytes)
    (delimited : scalar.wireType ≠ .lengthDelimited) :
    scalar.read.Reads bytes value := by
  unfold encode at written
  split at written <;> cases written
  case h_1 number => exact (Reader.reads_int32 number).map Value.int32
  case h_2 number => exact (Reader.reads_int64 number).map Value.int64
  case h_3 number => exact (Reader.reads_uint32 number).map Value.uint32
  case h_4 number => exact (Reader.reads_varint_toNat number).map Value.uint64
  case h_5 number => exact (Reader.reads_sint32 number).map Value.int32
  case h_6 number => exact (Reader.reads_sint64 number).map Value.int64
  case h_7 flag => exact (Reader.reads_bool flag).map Value.bool
  case h_8 number => exact (Reader.reads_fixed32 number).map Value.uint32
  case h_9 number => exact (Reader.reads_sfixed32 number).map Value.int32
  case h_10 bits => exact (Reader.reads_fixed32 bits).map Value.float
  case h_11 number => exact (Reader.reads_fixed64 number).map Value.uint64
  case h_12 number => exact (Reader.reads_sfixed64 number).map Value.int64
  case h_13 bits => exact (Reader.reads_fixed64 bits).map Value.double
  case h_14 => exact absurd rfl delimited
  case h_15 => exact absurd rfl delimited

/-- Every scalar is read back from its own bytes. -/
theorem exhausts_of_encode
    {scalar : Scalar}
    {value : Value}
    {bytes : List UInt8}
    (written : scalar.encode value = .ok bytes) :
    scalar.read.Exhausts bytes value := by
  by_cases delimited : scalar.wireType = .lengthDelimited
  · unfold encode at written
    split at written <;> cases written
    case h_14 content => exact (Reader.exhausts_restAsText content).map Value.string
    case h_15 => exact (Reader.exhausts_rest bytes).map Value.bytes
    all_goals cases delimited
  · exact (reads_of_encode written delimited).exhausts

end Scalar

end ProtoWire
