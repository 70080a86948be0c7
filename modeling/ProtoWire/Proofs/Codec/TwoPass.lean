import ProtoWire.Proofs.Codec.Recursion
import ProtoWire.Proofs.Schema.Frames
import ProtoWire.Proofs.Wire.Emission

/-!
Contract: sizes are found in one pass and bytes are written in another. For every value, whether
its type admits it or not, both passes end in the same way, and the size counts the bytes.

Owns:
- the agreement of the two passes;
- the lengths in front of records, runs and frames, which count the bytes behind them.

Does not own: whether what was written can be read.
-/

namespace ProtoWire

open Outcome

namespace Schema

variable {schema : Schema}

private theorem count_emitLength {payload : Emission} {size : Except WireError Nat}
    (counted : payload.count = size) :
    (emitLength size ++ payload).count =
      (fun count => Varint.size count + count) <$> size := by
  subst counted
  cases counted : payload.count with
  | error cause => rfl
  | ok count =>
      change (Emission.ofBytes (Varint.encode count) ++ payload).count = _
      rw [Emission.count_append, counted, Emission.count_ofBytes, Varint.length_encode]
      rfl

section Passes

variable
  {valueSize : TypeRef → Value → Except WireError Nat}
  {emitValue : TypeRef → Value → Emission}

private theorem count_emitRecord
    (counted : ∀ type value, (emitValue type value).count = valueSize type value)
    (field : Field)
    (value : Value) :
    (schema.emitRecord valueSize emitValue field value).count =
      schema.recordSize valueSize field value := by
  unfold emitRecord recordSize
  by_cases delimited : schema.wireType field.type = .lengthDelimited
  · simp only [if_pos delimited]
    rw [Emission.append_assoc, Emission.count_append, count_emitLength (counted field.type value),
      Emission.count_ofBytes, Key.length_encode]
    cases valueSize field.type value with
    | error cause => rfl
    | ok payload => exact congrArg Except.ok (Nat.add_assoc ..).symm
  · simp only [if_neg delimited]
    rw [Emission.append_empty, Emission.count_append, counted, Emission.count_ofBytes,
      Key.length_encode]
    rfl

private theorem count_emitField
    (counted : ∀ type value, (emitValue type value).count = valueSize type value)
    (messageName : String)
    (fields : FieldMap Value)
    (field : Field) :
    (schema.emitField valueSize emitValue messageName fields field).count =
      schema.fieldSize valueSize messageName fields field := by
  cases occurs : schema.occurrence messageName fields field with
  | error cause =>
      rw [emitField_of_error occurs, fieldSize_of_error occurs]
      rfl
  | ok occurrence =>
      cases occurrence with
      | nothing =>
          rw [emitField_of_nothing occurs, fieldSize_of_nothing occurs]
          rfl
      | records values =>
          rw [emitField_of_records occurs, fieldSize_of_records occurs]
          apply Emission.count_concat_map
          intro value _
          exact count_emitRecord counted field value
      | run values =>
          rw [emitField_of_run occurs, fieldSize_of_run occurs]
          have elements : (Emission.concat (values.map (emitValue field.type))).count = _ :=
            Emission.count_concat_map fun value _ => counted field.type value
          rw [Emission.append_assoc, Emission.count_append, count_emitLength elements,
            Emission.count_ofBytes, Key.length_encode]
          cases values.mapM (valueSize field.type) with
          | error cause => rfl
          | ok sizes => exact congrArg Except.ok (Nat.add_assoc ..).symm

private theorem count_emitCore
    (counted : ∀ type value, (emitValue type value).count = valueSize type value)
    (core : Core)
    (value : Value) :
    (schema.emitCore valueSize emitValue core value).count =
      schema.coreSize valueSize core value := by
  cases core with
  | scalar type =>
      change (Emission.ofExcept (type.encode value)).count = type.size value
      rw [Emission.count_ofExcept, Scalar.length_encode]
  | enum name type =>
      change (Emission.ofExcept ((type.numberOf name value).map Word.int32)).count =
        (type.numberOf name value >>= _)
      rw [Emission.count_ofExcept]
      cases type.numberOf name value with
      | error cause => rfl
      | ok number => exact congrArg Except.ok (Varint.length_encode _)
  | message name type =>
      cases value with
      | object typeName fields =>
          rw [coreSize_object]
          apply Emission.count_concat_map
          intro field _
          exact count_emitField counted name fields field
      | _ => rfl
  | missing index => rfl

private theorem count_encodeLength
    {framing : Framing}
    (sound : framing.IsSound)
    (payload : Nat) :
    List.length <$> framing.encodeLength payload =
      (fun _ => framing.prefixSize payload) <$> framing.checkLength payload := by
  unfold Framing.encodeLength
  cases fits : framing.checkLength payload with
  | error cause => rfl
  | ok _ => exact congrArg Except.ok (Framing.length_lengthBytes sound fits)

private theorem count_emitFrames
    {contentSize : Except WireError Nat}
    {content : Emission}
    (counted : content.count = contentSize)
    {frames : List Framing}
    (sound : ∀ framing ∈ frames, framing.IsSound) :
    (emitFrames contentSize content frames).count = framesSize contentSize frames := by
  induction frames with
  | nil => exact counted
  | cons framing frames inductionHypothesis =>
      have inner := inductionHypothesis fun other member =>
        sound other (List.mem_cons_of_mem framing member)
      have outer := sound framing List.mem_cons_self
      change (Emission.ofExcept (framesSize contentSize frames >>= framing.encodeLength) ++
        emitFrames contentSize content frames).count = (framesSize contentSize frames >>= _)
      rw [Emission.count_append, Emission.count_ofExcept, inner]
      cases framesSize contentSize frames with
      | error cause => rfl
      | ok payload =>
          rw [ok_bind, ok_bind, count_encodeLength outer]
          cases framing.checkLength payload <;> rfl

private theorem count_emitLayers
    (sound : schema.HasSoundFrames)
    (counted : ∀ type value, (emitValue type value).count = valueSize type value)
    (type : TypeRef)
    (value : Value) :
    (schema.emitLayers valueSize emitValue type value).count =
      schema.layersSize valueSize type value := by
  rw [emitLayers_eq, layersSize_eq]
  apply count_emitFrames
  · exact count_emitCore counted (schema.layers type).core value
  · intro framing member
    exact isSound_of_mem_frames sound member

end Passes

theorem count_emitWithin
    (sound : schema.HasSoundFrames)
    (height : Nat)
    (type : TypeRef)
    (value : Value) :
    (schema.emitWithin height type value).count = schema.sizeWithin height type value := by
  induction height generalizing type value with
  | zero =>
      rw [emitWithin, sizeWithin]
      exact count_emitLayers sound (fun _ _ => Emission.count_empty) type value
  | succ height inductionHypothesis =>
      rw [emitWithin, sizeWithin]
      exact count_emitLayers sound inductionHypothesis type value

/-- The size of a value counts what the value writes, and fails as the writing fails. -/
theorem count_emit (sound : schema.HasSoundFrames) (type : TypeRef) (value : Value) :
    (schema.emit type value).count = schema.size type value :=
  count_emitWithin sound value.height type value

/-- Since both passes end alike, encoding ends as the writing does. -/
theorem encode_eq
    (sound : schema.HasSoundFrames)
    {name : String}
    {type : TypeRef}
    (resolved : schema.resolve name = .ok type)
    (value : Value) :
    schema.encode name value = (schema.emit type value).toExcept := by
  unfold encode
  rw [resolved, ok_bind, ← count_emit sound, Emission.count]
  cases (schema.emit type value).toExcept <;> rfl

/-! ### Lengths in front of payloads -/

theorem size_of_emit
    (sound : schema.HasSoundFrames)
    {type : TypeRef}
    {value : Value}
    {bytes : List UInt8}
    (written : schema.emit type value = .ofBytes bytes) :
    schema.size type value = .ok bytes.length := by
  rw [← count_emit sound, written, Emission.count_ofBytes]

/-- A payload is written behind its length. -/
private theorem emitLength_append {payload : Emission} {size : Except WireError Nat}
    (counted : payload.count = size)
    {bytes : List UInt8} :
    emitLength size ++ payload = .ofBytes bytes ↔
      ∃ run, payload = .ofBytes run ∧ bytes = Word.lengthDelimited run := by
  rw [Emission.append_eq_ofBytes]
  constructor
  · rintro ⟨front, run, prefixed, rfl, rfl⟩
    refine ⟨run, rfl, ?_⟩
    obtain rfl : .ok run.length = size := counted
    obtain rfl : Varint.encode run.length = front := Emission.ofBytes_inj.mp prefixed
    rfl
  · rintro ⟨run, rfl, rfl⟩
    obtain rfl : .ok run.length = size := counted
    exact ⟨Varint.encode run.length, run, rfl, rfl, rfl⟩

theorem emitRecord_delimited
    (sound : schema.HasSoundFrames)
    {field : Field}
    (delimited : schema.wireType field.type = .lengthDelimited)
    {value : Value}
    {bytes : List UInt8} :
    schema.emitRecord schema.size schema.emit field value = .ofBytes bytes ↔
      ∃ payload, schema.emit field.type value = .ofBytes payload ∧
        bytes = Key.encode field.tag .lengthDelimited ++ Word.lengthDelimited payload := by
  unfold emitRecord
  simp only [if_pos delimited]
  rw [Emission.append_assoc, Emission.append_eq_ofBytes, delimited]
  constructor
  · rintro ⟨front, back, key, rest, rfl⟩
    obtain rfl : Key.encode field.tag .lengthDelimited = front := Emission.ofBytes_inj.mp key
    obtain ⟨payload, written, rfl⟩ :=
      (emitLength_append (count_emit sound field.type value)).mp rest
    exact ⟨payload, written, rfl⟩
  · rintro ⟨payload, written, rfl⟩
    exact ⟨_, _, rfl,
      (emitLength_append (count_emit sound field.type value)).mpr ⟨payload, written, rfl⟩, rfl⟩

theorem emitRecord_bare
    {field : Field}
    (bare : schema.wireType field.type ≠ .lengthDelimited)
    {value : Value}
    {bytes : List UInt8} :
    schema.emitRecord schema.size schema.emit field value = .ofBytes bytes ↔
      ∃ payload, schema.emit field.type value = .ofBytes payload ∧
        bytes = Key.encode field.tag (schema.wireType field.type) ++ payload := by
  unfold emitRecord
  simp only [if_neg bare]
  rw [Emission.append_empty, Emission.append_eq_ofBytes]
  constructor
  · rintro ⟨front, payload, key, written, rfl⟩
    obtain rfl := Emission.ofBytes_inj.mp key
    exact ⟨payload, written, rfl⟩
  · rintro ⟨payload, written, rfl⟩
    exact ⟨_, payload, rfl, written, rfl⟩

theorem emitField_run
    (sound : schema.HasSoundFrames)
    {messageName : String}
    {fields : FieldMap Value}
    {field : Field}
    {values : List Value}
    (occurs : schema.occurrence messageName fields field = .ok (.run values))
    {bytes : List UInt8} :
    schema.emitField schema.size schema.emit messageName fields field = .ofBytes bytes ↔
      ∃ run, Emission.concat (values.map (schema.emit field.type)) = .ofBytes run ∧
        bytes = Key.encode field.tag .lengthDelimited ++ Word.lengthDelimited run := by
  have elements : (Emission.concat (values.map (schema.emit field.type))).count = _ :=
    Emission.count_concat_map fun value _ => count_emit sound field.type value
  rw [emitField_of_run occurs, Emission.append_assoc, Emission.append_eq_ofBytes]
  constructor
  · rintro ⟨front, back, key, rest, rfl⟩
    obtain rfl := Emission.ofBytes_inj.mp key
    obtain ⟨run, written, rfl⟩ := (emitLength_append elements).mp rest
    exact ⟨run, written, rfl⟩
  · rintro ⟨run, written, rfl⟩
    exact ⟨_, _, rfl, (emitLength_append elements).mpr ⟨run, written, rfl⟩, rfl⟩

/-! ### Kinds of types -/

theorem emit_scalar (type : Scalar) (value : Value) :
    schema.emit (.scalar type) value = .ofExcept (type.encode value) := by
  rw [emit_eq, emitLayers_eq, layers, layersWithin_scalar]
  rfl

theorem emit_missing {index : Nat} (absent : schema.definition? index = none) (value : Value) :
    schema.emit (.definition index) value = .fail (.unknownType (toString index)) := by
  rw [emit_eq, emitLayers_eq, layers, layersWithin_missing absent]
  rfl

theorem emit_enum {index : Nat} {name : String} {enum : EnumType}
    (found : schema.definition? index = some ⟨name, .enum enum⟩)
    (value : Value) :
    schema.emit (.definition index) value =
      .ofExcept ((enum.numberOf name value).map Word.int32) := by
  rw [emit_eq, emitLayers_eq, layers, layersWithin_enum found]
  rfl

theorem emit_enum_eq_ofBytes {index : Nat} {name : String} {enum : EnumType}
    (found : schema.definition? index = some ⟨name, .enum enum⟩)
    {value : Value}
    {bytes : List UInt8} :
    schema.emit (.definition index) value = .ofBytes bytes ↔
      ∃ number, enum.numberOf name value = .ok number ∧ bytes = Word.int32 number := by
  rw [emit_enum found, Emission.ofExcept_eq_ofBytes]
  cases enum.numberOf name value with
  | error cause => simp [Except.map]
  | ok number => simp [Except.map, eq_comm]

/-- Only objects are written as messages. -/
theorem isObject_of_emit
    {index : Nat}
    {name : String}
    {message : MessageType}
    (found : schema.definition? index = some ⟨name, .message message⟩)
    {value : Value}
    {bytes : List UInt8}
    (written : schema.emit (.definition index) value = .ofBytes bytes) :
    ∃ typeName fields, value = .object typeName fields := by
  rw [emit_eq, emitLayers_eq, layers, layersWithin_message found] at written
  cases value with
  | object typeName fields => exact ⟨typeName, fields, rfl⟩
  | _ => cases congrArg Emission.failure written

/-- A message writes its fields in the order of their descriptors. -/
theorem emit_message
    {index : Nat}
    {name typeName : String}
    {message : MessageType}
    (found : schema.definition? index = some ⟨name, .message message⟩)
    (fields : FieldMap Value) :
    schema.emit (.definition index) (.object typeName fields) =
      .concat (message.fields.map (schema.emitField schema.size schema.emit name fields)) := by
  rw [emit_eq, emitLayers_eq, layers, layersWithin_message found]
  rfl

/-- A framed message is written behind the length of the message. -/
theorem emit_framed
    (sound : schema.HasSoundFrames)
    {index : Nat}
    {name : String}
    {type : FramedType}
    (found : schema.definition? index = some ⟨name, .framed type⟩)
    {value : Value}
    {bytes : List UInt8} :
    schema.emit (.definition index) value = .ofBytes bytes ↔
      ∃ payload, schema.emit (.definition type.inner) value = .ofBytes payload ∧
        type.framing.checkLength payload.length = .ok () ∧
        bytes = type.framing.lengthBytes payload.length ++ payload := by
  obtain ⟨-, innerName, message, inner⟩ := sound _ (mem_of_definition? found) type rfl
  have size : schema.size (.definition type.inner) value =
      schema.coreSize schema.size (.message innerName message) value := by
    rw [size_eq, layersSize_eq, layers, layersWithin_message inner]
    rfl
  have content : schema.emit (.definition type.inner) value =
      schema.emitCore schema.size schema.emit (.message innerName message) value := by
    rw [emit_eq, emitLayers_eq, layers, layersWithin_message inner]
    rfl
  have whole : schema.emit (.definition index) value =
      .ofExcept (schema.size (.definition type.inner) value >>= type.framing.encodeLength) ++
        schema.emit (.definition type.inner) value := by
    rw [emit_eq, emitLayers_eq, layers_framed_message found inner, size, content]
    rfl
  rw [whole, Emission.append_eq_ofBytes]
  constructor
  · rintro ⟨front, payload, prefixed, written, rfl⟩
    rw [size_of_emit sound written, ok_bind, Emission.ofExcept_eq_ofBytes] at prefixed
    obtain ⟨_, fits, equal⟩ := bind_eq_ok.mp prefixed
    obtain rfl := Except.ok.inj equal
    exact ⟨payload, written, fits, rfl⟩
  · rintro ⟨payload, written, fits, rfl⟩
    refine ⟨_, payload, ?_, written, rfl⟩
    rw [size_of_emit sound written, ok_bind, Emission.ofExcept_eq_ofBytes]
    exact bind_eq_ok.mpr ⟨(), fits, rfl⟩

/-- Every length that is written counts the bytes behind it: in front of a record, of a run and
of a frame. -/
structure WritesExactLengths (schema : Schema) : Prop where
  /-- A message is the sequence of what it writes for its fields. -/
  message : ∀ index name message typeName fields,
    schema.definition? index = some ⟨name, .message message⟩ →
      schema.emit (.definition index) (.object typeName fields) =
        .concat (message.fields.map (schema.emitField schema.size schema.emit name fields))
  record : ∀ field value bytes, schema.wireType field.type = .lengthDelimited →
    (schema.emitRecord schema.size schema.emit field value = .ofBytes bytes ↔
      ∃ payload, schema.emit field.type value = .ofBytes payload ∧
        bytes = Key.encode field.tag .lengthDelimited ++
          (Varint.encode payload.length ++ payload))
  run : ∀ messageName fields field values bytes,
    schema.occurrence messageName fields field = .ok (.run values) →
      (schema.emitField schema.size schema.emit messageName fields field = .ofBytes bytes ↔
        ∃ payload, Emission.concat (values.map (schema.emit field.type)) = .ofBytes payload ∧
          bytes = Key.encode field.tag .lengthDelimited ++
            (Varint.encode payload.length ++ payload))
  frame : ∀ index name type value bytes,
    schema.definition? index = some ⟨name, .framed type⟩ →
      (schema.emit (.definition index) value = .ofBytes bytes ↔
        ∃ payload, schema.emit (.definition type.inner) value = .ofBytes payload ∧
          type.framing.checkLength payload.length = .ok () ∧
          bytes = type.framing.lengthBytes payload.length ++ payload)

/-- The two passes agree on every value: the size is found exactly when the writing succeeds, and
then it counts the bytes that any buffer grows by; otherwise both fail with the same cause. -/
theorem size_agrees_with_emission (schema : Schema) (sound : schema.HasSoundFrames) :
    (∀ type value size,
      schema.size type value = .ok size ↔
        ∃ written, written.length = size ∧
          ∀ buffer, (schema.emit type value).appendTo buffer = (buffer ++ written, .ok ())) ∧
      (∀ type value cause,
        schema.size type value = .error cause ↔
          ∀ buffer, ((schema.emit type value).appendTo buffer).2 = .error cause) ∧
      schema.WritesExactLengths := by
  refine ⟨?_, ?_, ?_⟩
  · intro type value size
    rw [← count_emit sound, Emission.count_eq_ok, Emission.appendTo_eq_ok]
  · intro type value cause
    rw [← count_emit sound, Emission.count_eq_error, Emission.appendTo_eq_error]
  · exact
      { message := fun _ _ _ _ fields found => emit_message found fields
        record := fun _ _ _ delimited => emitRecord_delimited sound delimited
        run := fun _ _ _ _ _ occurs => emitField_run sound occurs
        frame := fun _ _ _ _ _ found => emit_framed sound found }

/-- A frame around a message that holds a message and a run. -/
def framedSample : Schema :=
  ⟨[⟨"Note", .message ⟨[⟨"text", 1, .scalar .string, .optional, false⟩], []⟩⟩,
    ⟨"Entry", .message
      ⟨[⟨"note", 1, .definition 0, .optional, false⟩,
        ⟨"counts", 2, .scalar .int32, .repeated, true⟩], []⟩⟩,
    ⟨"Frame", .framed ⟨1, .prefixed .sint32⟩⟩]⟩

theorem framedSample_hasSoundFrames : framedSample.HasSoundFrames := by
  intro definition member type kind
  simp only [framedSample, List.mem_cons, List.not_mem_nil, or_false] at member
  rcases member with rfl | rfl | rfl
  · cases kind
  · cases kind
  · obtain rfl : FramedType.mk 1 (.prefixed .sint32) = type := DefinitionKind.framed.inj kind
    exact ⟨rfl, _, _, rfl⟩

theorem size_agrees_with_emission_framed :
    framedSample.HasSoundFrames ∧
      ∃ written, written.length = 20 ∧
        ∀ buffer,
          (framedSample.emit (.definition 2)
            (.object "Entry"
              [("counts", .array [.int32 1, .int32 (-1)]),
               ("note", .object "Note" [("text", .string "hi")])])).appendTo buffer =
            (buffer ++ written, .ok ()) :=
  ⟨framedSample_hasSoundFrames,
    ((size_agrees_with_emission framedSample framedSample_hasSoundFrames).1 _ _ _).mp
      (by rfl)⟩

end Schema

end ProtoWire
