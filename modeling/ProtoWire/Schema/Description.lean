import ProtoWire.Schema.Basic
import ProtoWire.Text.Json

/-!
Contract: a schema as a JSON document.

Owns:
- the document of each part of a schema and the order of its members;
- the one-line summaries of definitions.

Does not own: the layout of JSON.
-/

namespace ProtoWire

def TypeRef.document : TypeRef → Json
  | .scalar type => .record [("primitive", .text type.name)]
  | .definition index => .record [("def", .number index)]

def Field.document (field : Field) : Json :=
  .record
    [("name", .text field.name),
     ("tag", .number field.tag),
     ("type_ref", field.type.document),
     ("label", .text field.label.name),
     ("packed", .flag field.packed)]

def EnumValue.document (value : EnumValue) : Json :=
  .record [("name", .text value.name), ("value", .number value.number.toInt)]

def Framing.document : Framing → Json
  | .prefixed lengthType => .record [("prefixed", .text lengthType.name)]
  | .fixed length => .record [("fixed", .number length)]

/-- The members that depend on the kind of a definition. -/
def DefinitionKind.members : DefinitionKind → List (String × Json)
  | .message type =>
      [("kind", .text "message"),
       ("fields", .list (type.fields.map Field.document)),
       ("extension_ranges",
        .list (type.extensionRanges.map fun range => .list [.number range.1, .number range.2]))]
  | .enum type =>
      [("kind", .text "enum"), ("values", .list (type.values.map EnumValue.document))]
  | .framed type =>
      [("kind", .text "framed"), ("inner", .number type.inner),
       ("framing", type.framing.document)]

/-- A definition and its place. -/
def Definition.document (definition : Definition) (index : Nat) : Json :=
  .record
    (("name", .text definition.name) :: ("index", .number index) :: definition.kind.members)

/-- A definition in a few words. -/
def Definition.summary (definition : Definition) : String :=
  definition.name ++
    match definition.kind with
    | .message type => s!" message ({type.fields.length} fields)"
    | .enum type => s!" enum ({type.values.length} values)"
    | .framed _ => " framed"

namespace Schema

def document (schema : Schema) : Json :=
  .record
    [("defs", .list (schema.definitions.zipIdx.map fun entry => entry.1.document entry.2))]

/-- The schema as JSON text. -/
def describe (schema : Schema) : String :=
  schema.document.pretty

end Schema

end ProtoWire
