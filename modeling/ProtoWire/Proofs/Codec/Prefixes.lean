import ProtoWire.Proofs.Codec.Consumption
import ProtoWire.Proofs.Schema.Growth

/-!
Contract: the number in front of a frame and the bytes that the frame takes. A base-128 number has
64 bits, and the reader of a length keeps as many of them as the length type has. A frame is as long
as the whole number says if the number is one of the type; a number of more than 32 bits is cut down
to a length of a narrow type without an error.

Owns:
- the number that the bits of a length stand for, before and after they are cut;
- when cutting changes nothing;
- what registered frames take for a number in front of them, and which numbers they refuse.

Does not own: lengths of a fixed width, or what is inside of a frame.
-/

namespace ProtoWire

/-! ### Numbers and lengths -/

/-- The integer types that are written as base-128 numbers. -/
def Scalar.isVarint (scalar : Scalar) : Bool :=
  scalar.isInteger && scalar.wireType == .varint

namespace Framing

/-- The number that all 64 bits in front of a frame stand for. -/
def wholeLength (scalar : Scalar) (word : UInt64) : Int :=
  match scalar with
  | .int32 | .int64 => word.toInt64.toInt
  | .sint32 | .sint64 => Zigzag.value word.toNat
  | _ => word.toNat

/-- The number that is left when the bits are cut down to those of the type. -/
def cutLength (scalar : Scalar) (word : UInt64) : Int :=
  match scalar with
  | .uint32 => word.toUInt32.toNat
  | .int32 => word.toUInt32.toInt32.toInt
  | .sint32 => Zigzag.value word.toUInt32.toNat
  | _ => wholeLength scalar word

/-- The numbers of a length type. -/
def HasNumber (scalar : Scalar) (number : Int) : Prop :=
  (match scalar with
    | .uint32 | .uint64 => 0
    | _ => -(maxLength scalar : Int) - 1) ≤ number ∧ number ≤ maxLength scalar

section Cutting

variable
  {scalar : Scalar}
  {word : UInt64}

/-- The reader of a length keeps the bits of the type. -/
theorem readSignedLength_eq (varint : scalar.isVarint = true) :
    readSignedLength scalar = cutLength scalar <$> Reader.varint := by
  cases scalar with
  | uint32 | int32 | int64 => exact (comp_map _ _ Reader.varint).symm
  | uint64 => rfl
  | sint32 =>
      rw [readSignedLength, Reader.sint32, ← comp_map]
      exact congrArg (· <$> Reader.varint) (funext fun word => Zigzag.toInt_decode32 word.toUInt32)
  | sint64 =>
      rw [readSignedLength, Reader.sint64, ← comp_map]
      exact congrArg (· <$> Reader.varint) (funext Zigzag.toInt_decode64)
  | bool | fixed32 | sfixed32 | fixed64 | sfixed64 | float | double | string | bytes => cases varint

private theorem toInt_narrow (word : UInt64) :
    word.toUInt32.toInt32.toInt = word.toInt64.toInt.bmod UInt32.size := by
  have same : word.toUInt32.toInt32 = word.toInt64.toInt32 := by
    apply Int32.toBitVec_inj.mp
    change word.toBitVec.setWidth 32 = word.toBitVec.signExtend 32
    exact (BitVec.signExtend_eq_setWidth_of_le _ (by decide)).symm
  rw [same]
  exact Int64.toInt_toInt32 word.toInt64

/-- What is left is a number of the type. -/
theorem hasNumber_cutLength (varint : scalar.isVarint = true) (word : UInt64) :
    HasNumber scalar (cutLength scalar word) := by
  cases scalar with
  | uint32 =>
      have bound := Nat.le_of_lt_succ word.toUInt32.toNat_lt
      exact ⟨Int.natCast_nonneg _, Int.ofNat_le.mpr bound⟩
  | uint64 => exact ⟨Int.natCast_nonneg _, Int.ofNat_le.mpr (Nat.le_of_lt_succ word.toNat_lt)⟩
  | int32 =>
      exact ⟨Int32.le_toInt word.toUInt32.toInt32, Int.le_of_lt_add_one (Int32.toInt_lt _)⟩
  | int64 => exact ⟨Int64.le_toInt word.toInt64, Int.le_of_lt_add_one (Int64.toInt_lt _)⟩
  | sint32 =>
      obtain ⟨below, above⟩ := Zigzag.value_mem (2 ^ 31) word.toUInt32.toNat_lt
      exact ⟨below, Int.le_of_lt_add_one above⟩
  | sint64 =>
      obtain ⟨below, above⟩ := Zigzag.value_mem (2 ^ 63) word.toNat_lt
      exact ⟨below, Int.le_of_lt_add_one above⟩
  | bool | fixed32 | sfixed32 | fixed64 | sfixed64 | float | double | string | bytes => cases varint

/-- Cutting changes nothing exactly if the whole number is one of the type. -/
theorem cutLength_eq_wholeLength (varint : scalar.isVarint = true) :
    cutLength scalar word = wholeLength scalar word ↔
      HasNumber scalar (wholeLength scalar word) := by
  refine ⟨fun same => same ▸ hasNumber_cutLength varint word, ?_⟩
  rintro ⟨below, above⟩
  cases scalar with
  | uint32 =>
      simp only [wholeLength, maxLength, WordRange.maxUInt32] at above
      simp only [cutLength, wholeLength, UInt64.toNat_toUInt32]
      omega
  | int32 =>
      rw [cutLength, toInt_narrow]
      simp only [wholeLength, maxLength, WordRange.maxInt32, UInt32.size] at below above ⊢
      exact Int.bmod_eq_of_le (by omega) (by omega)
  | sint32 =>
      -- A number of 32 bits has a place of 32 bits in the zigzag order, so no bit is lost.
      have small : word.toNat < 2 ^ 32 := by
        simp only [wholeLength, maxLength, WordRange.maxInt32, Zigzag.value] at below above
        split at above <;> simp only [Int.ofNat_eq_natCast] at below above <;> omega
      rw [cutLength, wholeLength, UInt64.toNat_toUInt32, Nat.mod_eq_of_lt small]
  | uint64 | int64 | sint64 => rfl
  | bool | fixed32 | sfixed32 | fixed64 | sfixed64 | float | double | string | bytes => cases varint

end Cutting

/-! ### Frames behind numbers -/

section Reading

variable
  {scalar : Scalar}
  {word : UInt64}
  {cursor behind : Cursor}

theorem readLength_eq_ok (varint : scalar.isVarint = true) {length : Nat} :
    (prefixed scalar).readLength cursor = .ok length behind ↔
      ∃ word, Reader.varint cursor = .ok word behind ∧ cutLength scalar word = length := by
  rw [readLength, readSignedLength_eq varint, Reader.bind_eq_ok]
  constructor
  · rintro ⟨number, middle, numberOk, lengthOk⟩
    obtain ⟨word, wordOk, rfl⟩ := Reader.map_eq_ok.mp numberOk
    by_cases negative : cutLength scalar word < 0
    · rw [if_pos negative] at lengthOk
      cases lengthOk
    · rw [if_neg negative] at lengthOk
      cases lengthOk
      exact ⟨word, wordOk, (Int.toNat_of_nonneg (Int.not_lt.mp negative)).symm⟩
  · rintro ⟨word, wordOk, same⟩
    refine ⟨_, behind, Reader.map_of_ok wordOk, ?_⟩
    rw [same, if_neg (Int.not_lt.mpr (Int.natCast_nonneg length))]
    rfl

/-- A frame is refused if its length is negative, or if fewer bytes are left. -/
theorem readPayload_refuses
    (varint : scalar.isVarint = true)
    (read : Reader.varint cursor = .ok word behind)
    (bad : cutLength scalar word < 0 ∨ (behind.remaining : Int) < cutLength scalar word) :
    ∃ problem, (prefixed scalar).readPayload cursor = .error (.invalidFraming problem) behind := by
  have signed : readSignedLength scalar cursor = .ok (cutLength scalar word) behind := by
    rw [readSignedLength_eq varint]
    exact Reader.map_of_ok read
  unfold readPayload
  rw [Reader.bind_get]
  by_cases negative : cutLength scalar word < 0
  · refine ⟨.negativeLength (cutLength scalar word), Reader.bind_of_error ?_⟩
    rw [readLength, Reader.bind_of_ok signed, if_pos negative]
    rfl
  · have overrun := bad.resolve_left negative
    obtain ⟨length, same⟩ := Int.eq_ofNat_of_zero_le (Int.not_lt.mp negative)
    refine ⟨.frameOverrun length cursor.offset behind.remaining, ?_⟩
    have short : behind.has length = false := by
      rw [← Bool.not_eq_true, Cursor.has_iff]
      omega
    rw [Reader.bind_of_ok ((readLength_eq_ok varint).mpr ⟨word, read, same⟩),
      Reader.bind_get, short]
    rfl

end Reading

end Framing

namespace Schema

variable
  {schema extended : Schema}
  {name inner : String}
  {scalar : Scalar}

/-- A registered frame is read as a payload behind its length, and the message in it. -/
theorem read_of_registerFramed
    (integer : scalar.isInteger = true)
    (registered : schema.registerFramed name inner (some scalar.name) none = .ok extended) :
    ∃ type content, extended.resolve name = .ok type ∧
      extended.read type = (do
        let payload ← (Framing.prefixed scalar).readPayload
        Reader.within payload content) := by
  obtain ⟨index, framing, message, configured, found, added⟩ := registerFramed_eq_ok registered
  obtain ⟨resolved, last⟩ := resolve_of_register added
  obtain ⟨-, -, rfl⟩ := register_eq_ok.mp added
  rw [Framing.ofConfig, Scalar.ofName?_name] at configured
  simp only [integer, if_true] at configured
  obtain rfl := Except.ok.inj configured
  have innerFound := definition?_append found [⟨name, .framed ⟨index, .prefixed scalar⟩⟩]
  exact ⟨_, _, resolved, readWithin_framed_message (maxDepth + 1) last innerFound⟩

/-- For every base-128 length type: a registered frame that is decoded takes as many bytes as the
whole number in front of it says exactly if this is a number of the type, and a number of the type
that is negative or more than the bytes that are left is refused. -/
theorem registered_frame_length
    (varint : scalar.isVarint = true)
    (registered : schema.registerFramed name inner (some scalar.name) none = .ok extended)
    (bytes : List UInt8) :
    (∀ value consumed, extended.decode name bytes = .ok (value, consumed) →
      ∃ word behind, Reader.varint (Cursor.ofBytes bytes) = .ok word behind ∧
        ((consumed : Int) = behind.offset + Framing.wholeLength scalar word ↔
          Framing.HasNumber scalar (Framing.wholeLength scalar word))) ∧
    ∀ word behind, Reader.varint (Cursor.ofBytes bytes) = .ok word behind →
      Framing.HasNumber scalar (Framing.wholeLength scalar word) →
        Framing.wholeLength scalar word < 0 ∨
          (behind.remaining : Int) < Framing.wholeLength scalar word →
            ∃ problem, extended.decode name bytes = .error (.invalidFraming problem) := by
  have integer := (Bool.and_eq_true_iff.mp varint).1
  obtain ⟨type, content, resolved, opened⟩ := read_of_registerFramed integer registered
  constructor
  · intro value consumed decoded
    obtain ⟨after, returned, rfl⟩ := (decode_eq_ok resolved).mp decoded
    rw [opened] at returned
    obtain ⟨payload, middle, payloadOk, insideOk⟩ := Reader.bind_eq_ok.mp returned
    obtain ⟨-, rfl⟩ := Reader.within_eq_ok.mp insideOk
    obtain ⟨length, behind, lengthOk, -, rfl⟩ := Framing.exists_of_readPayload payloadOk
    obtain ⟨word, wordOk, same⟩ := (Framing.readLength_eq_ok varint).mp lengthOk
    refine ⟨word, behind, wordOk, ?_⟩
    rw [← Framing.cutLength_eq_wholeLength varint, same]
    change ((behind.offset + length : Nat) : Int) = _ ↔ _
    omega
  · intro word behind read has bad
    rw [← (Framing.cutLength_eq_wholeLength varint).mpr has] at bad
    obtain ⟨problem, refused⟩ := Framing.readPayload_refuses varint read bad
    refine ⟨problem, (decode_eq_error resolved).mpr ⟨behind, ?_⟩⟩
    rw [opened]
    exact Reader.bind_of_error refused

/-- Letters with a page. -/
def letterSchema : Schema :=
  ⟨[⟨"Letter", .message ⟨[⟨"page", 1, .scalar .int32, .optional, false⟩], []⟩⟩]⟩

def sealedSchema (scalar : Scalar) : Schema :=
  ⟨letterSchema.definitions ++ [⟨"Sealed", .framed ⟨0, .prefixed scalar⟩⟩]⟩

theorem registered_frame_length_sealed :
    letterSchema.registerFramed "Sealed" "Letter" (some "sint32") none =
        .ok (sealedSchema .sint32) ∧
      (sealedSchema .sint32).decode "Sealed" [4, 8, 7] =
        .ok (.object "Letter" [("page", .int32 7)], 3) ∧
      (∃ word behind, Reader.varint (Cursor.ofBytes [4, 8, 7]) = .ok word behind ∧
        ((3 : Int) = behind.offset + Framing.wholeLength .sint32 word ↔
          Framing.HasNumber .sint32 (Framing.wholeLength .sint32 word))) ∧
      Reader.varint (Cursor.ofBytes [3, 8, 7]) = .ok 3 ⟨1, [8, 7]⟩ ∧
      Framing.wholeLength .sint32 3 = -2 ∧
      ∃ problem, (sealedSchema .sint32).decode "Sealed" [3, 8, 7] =
        .error (.invalidFraming problem) := by
  have registered : letterSchema.registerFramed "Sealed" "Letter" (some Scalar.sint32.name) none =
      .ok (sealedSchema .sint32) := rfl
  have decoded : (sealedSchema .sint32).decode "Sealed" [4, 8, 7] =
      .ok (.object "Letter" [("page", .int32 7)], 3) := rfl
  have negative : Reader.varint (Cursor.ofBytes [3, 8, 7]) = .ok 3 ⟨1, [8, 7]⟩ := rfl
  refine ⟨registered, decoded, ?_, negative, by decide, ?_⟩
  · exact (registered_frame_length (by decide) registered _).1 _ _ decoded
  · refine (registered_frame_length (by decide) registered _).2 _ _ negative ?_ (.inl (by decide))
    exact ⟨by decide, by decide⟩

/-- The number in front is `2 ^ 32 + 2`. Cut down to 32 bits it is two, and the frame ends behind
two bytes instead of being refused. -/
theorem frame_shorter_than_length :
    letterSchema.registerFramed "Sealed" "Letter" (some "uint32") none =
        .ok (sealedSchema .uint32) ∧
      (sealedSchema .uint32).decode "Sealed" [0x82, 0x80, 0x80, 0x80, 0x10, 8, 7] =
        .ok (.object "Letter" [("page", .int32 7)], 7) ∧
      Reader.varint (Cursor.ofBytes [0x82, 0x80, 0x80, 0x80, 0x10, 8, 7]) =
        .ok 4294967298 ⟨5, [8, 7]⟩ ∧
      (7 : Int) ≠ 5 + Framing.wholeLength .uint32 4294967298 :=
  ⟨rfl, rfl, rfl, by decide⟩

end Schema

end ProtoWire
