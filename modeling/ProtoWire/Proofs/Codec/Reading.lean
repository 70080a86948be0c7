import ProtoWire.Codec.Decode
import ProtoWire.Proofs.Outcome
import ProtoWire.Proofs.Schema.Frames
import ProtoWire.Proofs.Wire.Reading

/-!
Contract: the readers of messages and of their records, one equation for each kind of type and for
each way in which a record of a field is written.

Owns:
- what is read for each kind of type;
- what is read for each kind of record, and what a record does to the fields;
- how a number of an enum is shown.

Does not own: what a reader returns on given bytes.
-/

namespace ProtoWire

/-- How a number of an enum is shown. -/
def EnumType.valueOf (name : String) (enum : EnumType) (number : Int32) : Value :=
  match enum.nameOf? number with
  | some valueName => .enum name valueName
  | none => .int32 number

theorem EnumType.read_eq (name : String) (enum : EnumType) :
    enum.read name = enum.valueOf name <$> Reader.int32 := by
  rw [← bind_pure_comp]
  unfold EnumType.read
  congr 1
  funext number
  unfold EnumType.valueOf
  cases enum.nameOf? number <;> rfl

/-- What a record with one value does: it replaces the value of a field, or is added to it. -/
def Field.update (field : Field) (value : Value) : Update :=
  if field.isRepeated then .extend field.name [value] else .set field.name value

namespace Schema

variable {schema : Schema}

/-! ### Types -/

/-- The records of a message, if another level of messages is allowed. -/
def readBody (schema : Schema) : Nat → String → MessageType → Reader Value
  | 0 => fun _ _ => throw (.recursionLimitExceeded maxDepth)
  | levels + 1 => schema.readMessage (schema.readWithin levels)

theorem readWithin_eq (schema : Schema) (levels : Nat) :
    schema.readWithin levels = schema.readLayers (schema.readBody levels) := by
  cases levels <;> rfl

theorem readWithin_scalar (levels : Nat) (type : Scalar) :
    schema.readWithin levels (.scalar type) = type.read := by
  rw [readWithin_eq]
  funext cursor
  rw [readLayers, layersWithin_scalar]
  rfl

theorem readWithin_missing {index : Nat} (levels : Nat)
    (absent : schema.definition? index = none) :
    schema.readWithin levels (.definition index) = throw (.unknownType (toString index)) := by
  rw [readWithin_eq]
  funext cursor
  rw [readLayers, layersWithin_missing absent]
  rfl

theorem readWithin_enum {index : Nat} {name : String} {enum : EnumType} (levels : Nat)
    (found : schema.definition? index = some ⟨name, .enum enum⟩) :
    schema.readWithin levels (.definition index) = enum.read name := by
  rw [readWithin_eq]
  funext cursor
  rw [readLayers, layersWithin_enum found]
  rfl

theorem readWithin_message {index : Nat} {name : String} {message : MessageType} (levels : Nat)
    (found : schema.definition? index = some ⟨name, .message message⟩) :
    schema.readWithin levels (.definition index) = schema.readBody levels name message := by
  rw [readWithin_eq]
  funext cursor
  rw [readLayers, layersWithin_message found]
  rfl

/-- The content of a frame is read as the message that the frame wraps. -/
theorem readWithin_framed_message
    {index : Nat}
    {name innerName : String}
    {type : FramedType}
    {message : MessageType}
    (levels : Nat)
    (found : schema.definition? index = some ⟨name, .framed type⟩)
    (inner : schema.definition? type.inner = some ⟨innerName, .message message⟩) :
    schema.readWithin levels (.definition index) = (do
      let payload ← type.framing.readPayload
      Reader.within payload (schema.readWithin levels (.definition type.inner))) := by
  rw [readWithin_message levels inner, readWithin_eq]
  funext cursor
  obtain ⟨others, count⟩ : ∃ others,
      schema.frameLimit cursor (.definition index) = others + 1 := by
    have positive : 0 < schema.definitions.length :=
      List.length_pos_of_mem (mem_of_definition? found)
    have limit : 0 < schema.frameLimit cursor (.definition index) :=
      Nat.mul_pos positive (Nat.succ_pos _)
    exact ⟨_, (Nat.succ_pred_eq_of_pos limit).symm⟩
  rw [readLayers, count, layersWithin_framed_message found inner]
  rfl

theorem readWithin_framed
    (sound : schema.HasSoundFrames)
    {index : Nat}
    {name : String}
    {type : FramedType}
    (levels : Nat)
    (found : schema.definition? index = some ⟨name, .framed type⟩) :
    schema.readWithin levels (.definition index) = (do
      let payload ← type.framing.readPayload
      Reader.within payload (schema.readWithin levels (.definition type.inner))) := by
  obtain ⟨-, innerName, message, inner⟩ := sound _ (mem_of_definition? found) type rfl
  exact readWithin_framed_message levels found inner

/-- Decoding reads from the start of the bytes, and counts the bytes that are taken. -/
theorem decode_eq_ok
    {name : String}
    {type : TypeRef}
    (resolved : schema.resolve name = .ok type)
    {bytes : List UInt8}
    {value : Value}
    {consumed : Nat} :
    schema.decode name bytes = .ok (value, consumed) ↔
      ∃ cursor, schema.read type (Cursor.ofBytes bytes) = .ok value cursor ∧
        cursor.offset = consumed := by
  unfold decode
  rw [resolved, Outcome.ok_bind]
  cases schema.read type (Cursor.ofBytes bytes) with
  | error cause cursor => simp
  | ok result cursor =>
      constructor
      · rintro ⟨⟩
        exact ⟨cursor, rfl, rfl⟩
      · rintro ⟨_, ⟨⟩, rfl⟩
        rfl

/-- Decoding fails with the cause for which reading stops, wherever it stops. -/
theorem decode_eq_error
    {name : String}
    {type : TypeRef}
    (resolved : schema.resolve name = .ok type)
    {bytes : List UInt8}
    {cause : WireError} :
    schema.decode name bytes = .error cause ↔
      ∃ after, schema.read type (Cursor.ofBytes bytes) = .error cause after := by
  unfold decode
  rw [resolved, Outcome.ok_bind]
  cases schema.read type (Cursor.ofBytes bytes) with
  | error other after => simp
  | ok value cursor => simp

/-! ### Records -/

section Records

variable
  {readValue : TypeRef → Reader Value}
  {messageName : String}
  {field : Field}

/-- A run of values of a repeated field. -/
theorem readField_run
    (repeated : field.isRepeated = true)
    (bare : schema.wireType field.type ≠ .lengthDelimited) :
    schema.readField readValue messageName field .lengthDelimited = (do
      let run ← Reader.lengthDelimited
      let values ← Reader.within run (Reader.many (readValue field.type))
      pure (.extend field.name values)) := by
  unfold readField
  simp [repeated, bare]

/-- One value that has its length in front. -/
theorem readField_delimited (delimited : schema.wireType field.type = .lengthDelimited) :
    schema.readField readValue messageName field .lengthDelimited = (do
      let payload ← Reader.lengthDelimited
      let value ← Reader.within payload (readValue field.type)
      pure (field.update value)) := by
  unfold readField Field.update
  cases repeated : field.isRepeated <;> simp [delimited]

/-- One value that delimits itself. -/
theorem readField_bare (bare : schema.wireType field.type ≠ .lengthDelimited) :
    schema.readField readValue messageName field (schema.wireType field.type) = (do
      let value ← readValue field.type
      pure (field.update value)) := by
  unfold readField Field.update
  cases repeated : field.isRepeated <;> simp [bare]

/-- A wire type that is neither that of the field nor that of a run is refused. -/
theorem readField_mismatch
    {found : WireType}
    (different : found ≠ schema.wireType field.type)
    (noRun : field.isRepeated = false ∨ found ≠ .lengthDelimited) :
    schema.readField readValue messageName field found =
      throw (.unexpectedWireType (messageName ++ "." ++ field.name)
        (schema.wireType field.type) found) := by
  unfold readField
  have single : (field.isRepeated && found == .lengthDelimited &&
      schema.wireType field.type != .lengthDelimited) = false := by
    rw [Bool.and_eq_false_iff, Bool.and_eq_false_iff]
    left
    simpa using noRun
  simp [single, different]

/-- The four ways in which a record of a field is read. -/
theorem readField_cases
    {motive : WireType → Reader Update → Prop}
    (run : field.isRepeated = true → schema.wireType field.type ≠ .lengthDelimited →
      motive .lengthDelimited (do
        let run ← Reader.lengthDelimited
        let values ← Reader.within run (Reader.many (readValue field.type))
        pure (.extend field.name values)))
    (delimited : schema.wireType field.type = .lengthDelimited →
      motive .lengthDelimited (do
        let payload ← Reader.lengthDelimited
        let value ← Reader.within payload (readValue field.type)
        pure (field.update value)))
    (bare : schema.wireType field.type ≠ .lengthDelimited →
      motive (schema.wireType field.type) (do
        let value ← readValue field.type
        pure (field.update value)))
    (mismatch : ∀ found, found ≠ schema.wireType field.type →
      (field.isRepeated = false ∨ found ≠ .lengthDelimited) →
      motive found (throw (.unexpectedWireType (messageName ++ "." ++ field.name)
        (schema.wireType field.type) found)))
    (found : WireType) :
    motive found (schema.readField readValue messageName field found) := by
  by_cases expected : found = schema.wireType field.type
  · subst expected
    by_cases same : schema.wireType field.type = .lengthDelimited
    · rw [same, readField_delimited same]
      exact delimited same
    · rw [readField_bare same]
      exact bare same
  · by_cases runs : field.isRepeated = true ∧ found = .lengthDelimited
    · obtain ⟨repeated, rfl⟩ := runs
      have different : schema.wireType field.type ≠ .lengthDelimited := fun same =>
        expected same.symm
      rw [readField_run repeated different]
      exact run repeated different
    · have noRun : field.isRepeated = false ∨ found ≠ .lengthDelimited := by
        by_cases repeated : field.isRepeated = true
        · exact .inr fun same => runs ⟨repeated, same⟩
        · exact .inl (Bool.eq_false_iff.mpr repeated)
      rw [readField_mismatch expected noRun]
      exact mismatch found expected noRun

end Records

end Schema

end ProtoWire
