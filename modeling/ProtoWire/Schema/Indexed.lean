import Mathlib.Data.List.Basic
import ProtoWire.Schema.Basic

/-!
Contract: schemas that keep maps beside their lists, from names and numbers to the places of what
has them. The look-ups ask these maps alone, and what appends to a list notes the new place.

Owns:
- messages, enums, definitions and schemas with their maps, and what is left without the maps;
- looking up definitions, fields and enum values;
- appending fields, and registering definitions and frames.

Does not own: compiling sources, or what the look-ups find.
-/

namespace ProtoWire

open Std (HashMap)

/-! ### Messages and enums -/

/-- A message, and the places of its fields by their numbers and by their names. -/
structure IndexedMessage extends MessageType where
  placesByTag : HashMap Nat Nat
  placesByName : HashMap String Nat

namespace IndexedMessage

/-- A message without fields. -/
def bare (ranges : List (Nat × Nat)) : IndexedMessage :=
  ⟨⟨[], ranges⟩, ∅, ∅⟩

/-- Appends a field, whose place replaces what was noted under its number and its name. -/
def push (message : IndexedMessage) (field : Field) : IndexedMessage where
  toMessageType := message.toMessageType.push field
  placesByTag := message.placesByTag.insert field.tag message.fields.length
  placesByName := message.placesByName.insert field.name message.fields.length

def ofType (type : MessageType) : IndexedMessage :=
  type.fields.foldl push (bare type.extensionRanges)

def fieldByTag? (message : IndexedMessage) (tag : Nat) : Option Field :=
  message.placesByTag[tag]?.bind fun place => message.fields[place]?

def fieldByName? (message : IndexedMessage) (name : String) : Option Field :=
  message.placesByName[name]?.bind fun place => message.fields[place]?

end IndexedMessage

/-- An enum, and the places of its values by their numbers and by their names. -/
structure IndexedEnum extends EnumType where
  placesByNumber : HashMap Int32 Nat
  placesByName : HashMap String Nat

namespace IndexedEnum

def empty : IndexedEnum :=
  ⟨⟨[]⟩, ∅, ∅⟩

/-- Appends a value. A number that was noted before keeps its place. -/
def push (enum : IndexedEnum) (value : EnumValue) : IndexedEnum where
  values := enum.values ++ [value]
  placesByNumber := enum.placesByNumber.insertIfNew value.number enum.values.length
  placesByName := enum.placesByName.insert value.name enum.values.length

def ofType (type : EnumType) : IndexedEnum :=
  type.values.foldl push empty

def nameOf? (enum : IndexedEnum) (number : Int32) : Option String :=
  (enum.placesByNumber[number]?.bind fun place => enum.values[place]?).map EnumValue.name

def numberOf? (enum : IndexedEnum) (name : String) : Option Int32 :=
  (enum.placesByName[name]?.bind fun place => enum.values[place]?).map EnumValue.number

end IndexedEnum

/-! ### Definitions -/

/-- What an indexed definition defines. -/
inductive IndexedKind where
  | message (type : IndexedMessage)
  | enum (type : IndexedEnum)
  | framed (type : FramedType)

namespace IndexedKind

def ofKind : DefinitionKind → IndexedKind
  | .message type => .message (.ofType type)
  | .enum type => .enum (.ofType type)
  | .framed type => .framed type

/-- What is left without the maps. -/
def plain : IndexedKind → DefinitionKind
  | .message type => .message type.toMessageType
  | .enum type => .enum type.toEnumType
  | .framed type => .framed type

end IndexedKind

/-- A definition under its full name, which knows its own place. -/
structure IndexedDefinition where
  name : String
  index : Nat
  kind : IndexedKind

namespace IndexedDefinition

/-- What is left without the maps and the place. -/
def plain (definition : IndexedDefinition) : Definition :=
  ⟨definition.name, definition.kind.plain⟩

def message? (definition : IndexedDefinition) : Option IndexedMessage :=
  match definition.kind with
  | .message type => some type
  | _ => none

end IndexedDefinition

/-! ### Schemas -/

/-- All definitions in the order in which they were registered, and their places by name. -/
structure IndexedSchema where
  definitions : List IndexedDefinition
  places : HashMap String Nat

namespace IndexedSchema

def empty : IndexedSchema :=
  ⟨[], ∅⟩

/-- What is left without the maps. -/
def plain (schema : IndexedSchema) : Schema :=
  ⟨schema.definitions.map IndexedDefinition.plain⟩

def definition? (schema : IndexedSchema) (index : Nat) : Option IndexedDefinition :=
  schema.definitions[index]?

def definitionByName? (schema : IndexedSchema) (name : String) : Option IndexedDefinition :=
  schema.places[name]?.bind schema.definition?

/-- The type with a name: a scalar by its keyword, else a definition by its full name. -/
def resolve (schema : IndexedSchema) (name : String) : Except WireError TypeRef :=
  match Scalar.ofName? name with
  | some scalar => .ok (.scalar scalar)
  | none =>
      match schema.places[name]? with
      | some index => .ok (.definition index)
      | none => .error (.unknownType name)

/-- Appends a field to the definition with a name, if it is a message. -/
def pushField (schema : IndexedSchema) (name : String) (field : Field) : IndexedSchema :=
  match schema.places[name]? with
  | none => schema
  | some place =>
      match schema.definition? place with
      | some ⟨full, index, .message type⟩ =>
          { schema with
            definitions := schema.definitions.set place ⟨full, index, .message (type.push field)⟩ }
      | _ => schema

/-- Registers a definition under a name that is neither taken nor a keyword. -/
def register (schema : IndexedSchema) (name : String) (kind : IndexedKind) :
    Except WireError IndexedSchema :=
  if schema.places.contains name || (Scalar.ofName? name).isSome then
    .error (.duplicateType name)
  else
    .ok
      { definitions := schema.definitions ++ [⟨name, schema.definitions.length, kind⟩]
        places := schema.places.insert name schema.definitions.length }

/-- Registers frames around a message. -/
def registerFramed
    (schema : IndexedSchema)
    (name inner : String)
    (lengthType : Option String)
    (length : Option Nat) :
    Except WireError IndexedSchema := do
  let framing ← Framing.ofConfig lengthType length
  match ← schema.resolve inner with
  | .definition index =>
      match (schema.definition? index).bind IndexedDefinition.message? with
      | some _ => schema.register name (.framed ⟨index, framing⟩)
      | none => .error (.invalidFraming (.notMessage inner))
  | .scalar _ => .error (.invalidFraming (.notMessage inner))

end IndexedSchema

end ProtoWire
