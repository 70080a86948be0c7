import ProtoWire.Framing

/-!
Contract: the compiled types of a set of sources, as a list of definitions that refer to
each other by their place in the list.

Owns:
- fields, messages, enums, framed messages and the schema that lists them;
- looking up definitions, fields and enum values by a search of the lists;
- opening the frames around a type.

Does not own: maps that find the same without a search, reading and writing values, or compiling
sources.
-/

namespace ProtoWire

/-- What a field holds: a scalar, or the definition at a place of the schema. -/
inductive TypeRef where
  | scalar (type : Scalar)
  | definition (index : Nat)
deriving DecidableEq, Repr

/-- How often a field occurs. -/
inductive Label where
  | optional
  | required
  | repeated
deriving DecidableEq, Repr

/-- The name of a label in descriptions. -/
def Label.name : Label → String
  | .optional => "optional"
  | .required => "required"
  | .repeated => "repeated"

/-- A field of a message. `packed` matters only for repeated fields whose elements are not
length-delimited. -/
structure Field where
  name : String
  tag : Nat
  type : TypeRef
  label : Label
  packed : Bool
deriving DecidableEq, Repr

namespace Field

def isRepeated (field : Field) : Bool :=
  field.label == .repeated

def isRequired (field : Field) : Bool :=
  field.label == .required

end Field

/-- A message: its fields, and the inclusive ranges of field numbers that extensions may
take. -/
structure MessageType where
  fields : List Field
  extensionRanges : List (Nat × Nat)
deriving DecidableEq, Repr

namespace MessageType

/-- A message without fields or extension ranges. -/
def empty : MessageType :=
  ⟨[], []⟩

/-- The last field with a field number. -/
def fieldByTag? (message : MessageType) (tag : Nat) : Option Field :=
  (message.fields.filter fun field => field.tag == tag).getLast?

/-- The last field with a name. -/
def fieldByName? (message : MessageType) (name : String) : Option Field :=
  (message.fields.filter fun field => field.name == name).getLast?

/-- Whether extensions may take a field number. -/
def inExtensionRange (message : MessageType) (tag : Nat) : Bool :=
  message.extensionRanges.any fun range => range.1 ≤ tag && tag ≤ range.2

/-- Appends a field. -/
def push (message : MessageType) (field : Field) : MessageType :=
  { message with fields := message.fields ++ [field] }

end MessageType

/-- A named number. -/
structure EnumValue where
  name : String
  number : Int32
deriving DecidableEq, Repr

structure EnumType where
  values : List EnumValue
deriving DecidableEq, Repr

namespace EnumType

/-- The first name of a number. -/
def nameOf? (enum : EnumType) (number : Int32) : Option String :=
  (enum.values.find? fun value => value.number == number).map EnumValue.name

/-- The number of the last value with a name. -/
def numberOf? (enum : EnumType) (name : String) : Option Int32 :=
  ((enum.values.filter fun value => value.name == name).getLast?).map EnumValue.number

end EnumType

/-- A message in frames. `inner` is the place of the message. -/
structure FramedType where
  inner : Nat
  framing : Framing
deriving DecidableEq, Repr

/-- What a definition defines. -/
inductive DefinitionKind where
  | message (type : MessageType)
  | enum (type : EnumType)
  | framed (type : FramedType)
deriving DecidableEq, Repr

/-- A definition under its full name. -/
structure Definition where
  name : String
  kind : DefinitionKind
deriving DecidableEq, Repr

/-- The message that a definition defines. -/
def Definition.message? (definition : Definition) : Option MessageType :=
  match definition.kind with
  | .message type => some type
  | _ => none

/-- All definitions, in the order in which they were registered. -/
structure Schema where
  definitions : List Definition
deriving DecidableEq, Repr

/-- What is left of a type when its frames are opened. -/
inductive Core where
  | scalar (type : Scalar)
  | enum (name : String) (type : EnumType)
  | message (name : String) (type : MessageType)
  /-- The reference leads to no definition. -/
  | missing (index : Nat)
deriving DecidableEq, Repr

/-- The frames around a type, the outermost first, and what they contain. -/
structure Layers where
  frames : List Framing
  core : Core
deriving DecidableEq, Repr

namespace Schema

def empty : Schema :=
  ⟨[]⟩

def definition? (schema : Schema) (index : Nat) : Option Definition :=
  schema.definitions[index]?

/-- The place of the last definition with a name. -/
def indexOf? (schema : Schema) (name : String) : Option Nat :=
  ((schema.definitions.zipIdx.filter fun entry => entry.1.name == name).getLast?).map Prod.snd

/-- The last definition with a name. -/
def definitionByName? (schema : Schema) (name : String) : Option Definition :=
  (schema.indexOf? name).bind schema.definition?

/-- The type with a name: a scalar by its keyword, else a definition by its full name. -/
def resolve (schema : Schema) (name : String) : Except WireError TypeRef :=
  match Scalar.ofName? name with
  | some scalar => .ok (.scalar scalar)
  | none =>
      match schema.indexOf? name with
      | some index => .ok (.definition index)
      | none => .error (.unknownType name)

/-- How one value of a type is delimited on the wire. -/
def wireType (schema : Schema) : TypeRef → WireType
  | .scalar type => type.wireType
  | .definition index =>
      match (schema.definition? index).map Definition.kind with
      | some (.enum _) => .varint
      | _ => .lengthDelimited

/-- The name of a type. -/
def typeName (schema : Schema) : TypeRef → String
  | .scalar type => type.name
  | .definition index => ((schema.definition? index).map Definition.name).getD ""

/-- Opens at most `count` frames around a type. -/
def layersWithin (schema : Schema) : Nat → TypeRef → Layers
  | _, .scalar type => ⟨[], .scalar type⟩
  | count, .definition index =>
      match schema.definition? index with
      | none => ⟨[], .missing index⟩
      | some ⟨name, .message type⟩ => ⟨[], .message name type⟩
      | some ⟨name, .enum type⟩ => ⟨[], .enum name type⟩
      | some ⟨_, .framed type⟩ =>
          match count with
          | 0 => ⟨[], .missing index⟩
          | more + 1 =>
              let inner := schema.layersWithin more (.definition type.inner)
              ⟨type.framing :: inner.frames, inner.core⟩

/-- The layers of a type. Frames that do not contain themselves are no more than there are
definitions. -/
def layers (schema : Schema) (type : TypeRef) : Layers :=
  schema.layersWithin schema.definitions.length type

/-- Appends a field to the last definition with a name, if it is a message. -/
def pushField (schema : Schema) (name : String) (field : Field) : Schema :=
  match schema.indexOf? name with
  | none => schema
  | some index =>
      match schema.definition? index with
      | some ⟨full, .message type⟩ =>
          ⟨schema.definitions.set index ⟨full, .message (type.push field)⟩⟩
      | _ => schema

/-- Registers a definition under a name that is neither taken nor a keyword. -/
def register (schema : Schema) (name : String) (kind : DefinitionKind) :
    Except WireError Schema :=
  if (schema.indexOf? name).isSome || (Scalar.ofName? name).isSome then
    .error (.duplicateType name)
  else .ok ⟨schema.definitions ++ [⟨name, kind⟩]⟩

/-- Registers frames around a message. -/
def registerFramed
    (schema : Schema)
    (name inner : String)
    (lengthType : Option String)
    (length : Option Nat) :
    Except WireError Schema := do
  let framing ← Framing.ofConfig lengthType length
  match ← schema.resolve inner with
  | .definition index =>
      match (schema.definition? index).bind Definition.message? with
      | some _ => schema.register name (.framed ⟨index, framing⟩)
      | none => .error (.invalidFraming (.notMessage inner))
  | .scalar _ => .error (.invalidFraming (.notMessage inner))

end Schema

end ProtoWire
