import ProtoWire.Schema.Basic
import ProtoWire.Wire.Key

/-!
Contract: reading values of the types of a schema from wire data.

Owns:
- what one record of a message does to its fields;
- reading enums, messages and framed messages;
- the limit on nested messages.

Does not own: the readers of single scalars and frames.
-/

namespace ProtoWire

/-- The deepest message below the root that is followed. -/
def maxDepth : Nat := 100

/-- What one record of a message does to the fields read before it. -/
inductive Update where
  /-- The record belongs to no field. -/
  | skip
  | set (name : String) (value : Value)
  | extend (name : String) (values : List Value)

/-- The fields after a record. -/
def Update.apply (fields : FieldMap Value) : Update → FieldMap Value
  | .skip => fields
  | .set name value => FieldMap.insert fields name value
  | .extend name values => FieldMap.extend fields name values

/-- An enum value: the first name of its number, or the number if it has none. -/
def EnumType.read (name : String) (enum : EnumType) : Reader Value := do
  let number ← Reader.int32
  match enum.nameOf? number with
  | some valueName => pure (.enum name valueName)
  | none => pure (.int32 number)

namespace Schema

/-- One record of a known field. A run of self-delimiting elements is accepted for every
repeated field, whether or not the field is packed. -/
def readField
    (schema : Schema)
    (readValue : TypeRef → Reader Value)
    (messageName : String)
    (field : Field)
    (found : WireType) :
    Reader Update := do
  let expected := schema.wireType field.type
  if field.isRepeated && found == .lengthDelimited && expected != .lengthDelimited then
    let run ← Reader.lengthDelimited
    let values ← Reader.within run (Reader.many (readValue field.type))
    pure (.extend field.name values)
  else if found != expected then
    throw (.unexpectedWireType (messageName ++ "." ++ field.name) expected found)
  else
    let value ←
      if found = .lengthDelimited then do
        let payload ← Reader.lengthDelimited
        Reader.within payload (readValue field.type)
      else readValue field.type
    if field.isRepeated then pure (.extend field.name [value])
    else pure (.set field.name value)

/-- One record of a message: a key and a payload. -/
def readRecord
    (schema : Schema)
    (readValue : TypeRef → Reader Value)
    (messageName : String)
    (message : MessageType) :
    Reader Update := do
  let (tag, found) ← Reader.key
  match message.fieldByTag? tag with
  | none =>
      Reader.skip found
      pure .skip
  | some field => schema.readField readValue messageName field found

/-- All records up to the end of the bytes. -/
def readMessage
    (schema : Schema)
    (readValue : TypeRef → Reader Value)
    (messageName : String)
    (message : MessageType) :
    Reader Value := do
  let updates ← Reader.many (schema.readRecord readValue messageName message)
  pure (.object messageName (updates.foldl Update.apply []))

/-- What stands inside of all frames. -/
def readCore
    (readBody : String → MessageType → Reader Value) :
    Core → Reader Value
  | .scalar type => type.read
  | .enum name type => type.read name
  | .message name type => readBody name type
  | .missing index => throw (.unknownType (toString index))

/-- Frames from the outside in. What a frame holds behind its content is dropped. -/
def readFrames (readContent : Reader Value) : List Framing → Reader Value
  | [] => readContent
  | framing :: frames => do
      let payload ← framing.readPayload
      Reader.within payload (readFrames readContent frames)

/-- How many frames around a type are opened. Frames around themselves are opened as long as
there are bytes for another prefix. -/
def frameLimit (schema : Schema) (cursor : Cursor) : TypeRef → Nat
  | .scalar _ => 0
  | .definition _ => schema.definitions.length * (cursor.remaining + 2)

/-- A value with its frames. -/
def readLayers
    (schema : Schema)
    (readBody : String → MessageType → Reader Value)
    (type : TypeRef) :
    Reader Value := fun cursor =>
  let layers := schema.layersWithin (schema.frameLimit cursor type) type
  readFrames (readCore readBody layers.core) layers.frames cursor

/-- A value in which messages nest at most `levels` deep. -/
def readWithin (schema : Schema) : Nat → TypeRef → Reader Value
  | 0 => schema.readLayers fun _ _ => throw (.recursionLimitExceeded maxDepth)
  | levels + 1 => schema.readLayers (schema.readMessage (schema.readWithin levels))

/-- One value without a key. Messages, text and byte strings take all bytes that are
left. -/
def read (schema : Schema) (type : TypeRef) : Reader Value :=
  schema.readWithin (maxDepth + 1) type

/-- A value of a named type from the start of some bytes, and the count of the bytes that
it takes. -/
def decode (schema : Schema) (name : String) (bytes : List UInt8) :
    Except WireError (Value × Nat) := do
  let type ← schema.resolve name
  match schema.read type (Cursor.ofBytes bytes) with
  | .ok value cursor => .ok (value, cursor.offset)
  | .error cause _ => .error cause

end Schema

end ProtoWire
