import ProtoWire.Schema.Basic
import ProtoWire.Wire.Emission
import ProtoWire.Wire.Key

/-!
Contract: writing values as types of a schema, and their sizes without writing them.
Fields are written in the order of their descriptors.

Owns:
- the size of a value and the emission of a value, each on its own;
- which values a type admits.

Does not own: the written form of scalars, keys and frame lengths.
-/

namespace ProtoWire

/-- The number that a value stands for as an enum. -/
def EnumType.numberOf (name : String) (enum : EnumType) : Value → Except WireError Int32
  | .enum _ valueName =>
      match enum.numberOf? valueName with
      | some number => .ok number
      | none => .error (.unknownEnumValue name valueName)
  | .int32 number => .ok number
  | other => .error (.typeMismatch name other.kindName)

/-- What a message writes for a field. -/
inductive Occurrence where
  /-- The field is absent or empty. -/
  | nothing
  /-- One record per value. -/
  | records (values : List Value)
  /-- One record for all values. -/
  | run (values : List Value)

namespace Schema

/-- What a message with some fields writes for a field. -/
def occurrence
    (schema : Schema)
    (messageName : String)
    (fields : FieldMap Value)
    (field : Field) :
    Except WireError Occurrence :=
  match FieldMap.get? fields field.name with
  | none =>
      if field.isRequired then .error (.missingRequiredField messageName field.name)
      else .ok .nothing
  | some value =>
      if field.isRepeated then
        match value with
        | .array [] => .ok .nothing
        | .array elements =>
            if field.packed && schema.wireType field.type != .lengthDelimited then
              .ok (.run elements)
            else .ok (.records elements)
        | other =>
            .error (.typeMismatch ("repeated " ++ schema.typeName field.type) other.kindName)
      else .ok (.records [value])

/-! ### Sizes -/

/-- The size of parts that stand one behind the other. -/
def totalSize (sizes : List Nat) : Nat :=
  sizes.foldr (· + ·) 0

/-- One keyed value. -/
def recordSize
    (schema : Schema)
    (valueSize : TypeRef → Value → Except WireError Nat)
    (field : Field)
    (value : Value) :
    Except WireError Nat := do
  let wireType := schema.wireType field.type
  let payload ← valueSize field.type value
  let lengthSize := if wireType = .lengthDelimited then Varint.size payload else 0
  pure (Key.size field.tag wireType + lengthSize + payload)

/-- All that a message writes for a field. -/
def fieldSize
    (schema : Schema)
    (valueSize : TypeRef → Value → Except WireError Nat)
    (messageName : String)
    (fields : FieldMap Value)
    (field : Field) :
    Except WireError Nat := do
  match ← schema.occurrence messageName fields field with
  | .nothing => pure 0
  | .records values => do
      let sizes ← values.mapM (schema.recordSize valueSize field)
      pure (totalSize sizes)
  | .run values => do
      let sizes ← values.mapM (valueSize field.type)
      let payload := totalSize sizes
      pure (Key.size field.tag .lengthDelimited + Varint.size payload + payload)

/-- A value without its frames. -/
def coreSize
    (schema : Schema)
    (valueSize : TypeRef → Value → Except WireError Nat)
    (core : Core)
    (value : Value) :
    Except WireError Nat :=
  match core with
  | .scalar type => type.size value
  | .enum name type => do
      let number ← type.numberOf name value
      pure (Varint.size number.toInt64.toUInt64.toNat)
  | .message name type =>
      match value with
      | .object _ fields => do
          let sizes ← type.fields.mapM (schema.fieldSize valueSize name fields)
          pure (totalSize sizes)
      | other => .error (.typeMismatch name other.kindName)
  | .missing index => .error (.unknownType (toString index))

/-- Content in frames. -/
def framesSize (content : Except WireError Nat) : List Framing → Except WireError Nat
  | [] => content
  | framing :: frames => do
      let payload ← framesSize content frames
      framing.checkLength payload
      pure (framing.prefixSize payload + payload)

/-- A value with its frames. -/
def layersSize
    (schema : Schema)
    (valueSize : TypeRef → Value → Except WireError Nat)
    (type : TypeRef)
    (value : Value) :
    Except WireError Nat :=
  let layers := schema.layers type
  framesSize (schema.coreSize valueSize layers.core value) layers.frames

/-- The size of a value in which arrays and objects nest at most `height` deep. -/
def sizeWithin (schema : Schema) : Nat → TypeRef → Value → Except WireError Nat
  | 0 => schema.layersSize fun _ _ => .ok 0
  | height + 1 => schema.layersSize (schema.sizeWithin height)

/-- The count of the bytes of a value without a key. -/
def size (schema : Schema) (type : TypeRef) (value : Value) : Except WireError Nat :=
  schema.sizeWithin value.height type value

/-! ### Emissions -/

/-- The length in front of a payload whose size is known. -/
def emitLength (payload : Except WireError Nat) : Emission :=
  .ofExcept (payload.map Varint.encode)

/-- One keyed value. -/
def emitRecord
    (schema : Schema)
    (valueSize : TypeRef → Value → Except WireError Nat)
    (emitValue : TypeRef → Value → Emission)
    (field : Field)
    (value : Value) :
    Emission :=
  let wireType := schema.wireType field.type
  let length :=
    if wireType = .lengthDelimited then emitLength (valueSize field.type value) else .empty
  Emission.ofBytes (Key.encode field.tag wireType) ++ length ++ emitValue field.type value

/-- All that a message writes for a field. -/
def emitField
    (schema : Schema)
    (valueSize : TypeRef → Value → Except WireError Nat)
    (emitValue : TypeRef → Value → Emission)
    (messageName : String)
    (fields : FieldMap Value)
    (field : Field) :
    Emission :=
  match schema.occurrence messageName fields field with
  | .error cause => .fail cause
  | .ok .nothing => .empty
  | .ok (.records values) =>
      .concat (values.map (schema.emitRecord valueSize emitValue field))
  | .ok (.run values) =>
      Emission.ofBytes (Key.encode field.tag .lengthDelimited) ++
        emitLength (totalSize <$> values.mapM (valueSize field.type)) ++
        .concat (values.map (emitValue field.type))

/-- A value without its frames. -/
def emitCore
    (schema : Schema)
    (valueSize : TypeRef → Value → Except WireError Nat)
    (emitValue : TypeRef → Value → Emission)
    (core : Core)
    (value : Value) :
    Emission :=
  match core with
  | .scalar type => .ofExcept (type.encode value)
  | .enum name type => .ofExcept ((type.numberOf name value).map Word.int32)
  | .message name type =>
      match value with
      | .object _ fields =>
          .concat (type.fields.map (schema.emitField valueSize emitValue name fields))
      | other => .fail (.typeMismatch name other.kindName)
  | .missing index => .fail (.unknownType (toString index))

/-- Content in frames, each with its length in front. -/
def emitFrames
    (contentSize : Except WireError Nat)
    (content : Emission) :
    List Framing → Emission
  | [] => content
  | framing :: frames =>
      .ofExcept (framesSize contentSize frames >>= framing.encodeLength) ++
        emitFrames contentSize content frames

/-- A value with its frames. -/
def emitLayers
    (schema : Schema)
    (valueSize : TypeRef → Value → Except WireError Nat)
    (emitValue : TypeRef → Value → Emission)
    (type : TypeRef)
    (value : Value) :
    Emission :=
  let layers := schema.layers type
  emitFrames
    (schema.coreSize valueSize layers.core value)
    (schema.emitCore valueSize emitValue layers.core value)
    layers.frames

/-- What a value writes in which arrays and objects nest at most `height` deep. -/
def emitWithin (schema : Schema) : Nat → TypeRef → Value → Emission
  | 0 => schema.emitLayers (fun _ _ => .ok 0) fun _ _ => .empty
  | height + 1 => schema.emitLayers (schema.sizeWithin height) (schema.emitWithin height)

/-- What a value writes without a key. -/
def emit (schema : Schema) (type : TypeRef) (value : Value) : Emission :=
  schema.emitWithin value.height type value

/-! ### Named types -/

/-- The count of the bytes of a value of a named type. -/
def encodedSize (schema : Schema) (name : String) (value : Value) : Except WireError Nat := do
  let type ← schema.resolve name
  schema.size type value

/-- The bytes of a value of a named type. The size is found first, so that a value that
cannot be written is refused before anything is written. -/
def encode (schema : Schema) (name : String) (value : Value) :
    Except WireError (List UInt8) := do
  let type ← schema.resolve name
  let _ ← schema.size type value
  (schema.emit type value).toExcept

end Schema

end ProtoWire
