import ProtoWire.Proofs.Places
import ProtoWire.Proofs.Schema.Outline

/-!
Contract: the rules that compiled schemas obey. Names and field numbers are unique, so that every
look-up has one answer, and references lead to messages and enums.

Owns:
- references that lead somewhere, and the types whose values can be packed;
- the rules on messages, enums and schemas;
- what the look-ups return under these rules;
- the rules on a message in schemas with the same outline.

Does not own: which schemas obey the rules.
-/

namespace ProtoWire

/-! ### References -/

namespace Schema

/-- A reference leads to a definition. -/
def Has (schema : Schema) : TypeRef → Prop
  | .scalar _ => True
  | .definition index => index < schema.definitions.length

instance (schema : Schema) (type : TypeRef) : Decidable (schema.Has type) := by
  cases type <;> unfold Has <;> infer_instance

theorem definition?_of_has {schema : Schema} {index : Nat}
    (has : schema.Has (.definition index)) :
    ∃ definition, schema.definition? index = some definition :=
  ⟨_, List.getElem?_eq_getElem has⟩

end Schema

/-! ### Rules -/

/-- Fields hold scalars, messages and enums. -/
def Schema.IsFieldType (schema : Schema) : TypeRef → Prop
  | .scalar _ => True
  | .definition index =>
      ∃ definition, schema.definition? index = some definition ∧
        ∀ type, definition.kind ≠ .framed type

/-- Values of a type delimit themselves: those of enums, and scalars but texts and bytes. -/
def Schema.IsPackable (schema : Schema) : TypeRef → Prop
  | .scalar type => type ≠ .string ∧ type ≠ .bytes
  | .definition index => ∃ name enum, schema.definition? index = some ⟨name, .enum enum⟩

/-- The rules on a field, whatever the other fields are. -/
structure Field.WellFormed (schema : Schema) (field : Field) : Prop where
  positive : Tag.min ≤ field.tag
  bounded : field.tag ≤ Tag.max
  type : schema.IsFieldType field.type
  packed : field.packed = true →
    field.isRepeated = true ∧ schema.wireType field.type ≠ .lengthDelimited

/-- The rules on a message. -/
structure MessageType.WellFormed (schema : Schema) (message : MessageType) : Prop where
  tags : (message.fields.map Field.tag).Nodup
  names : (message.fields.map Field.name).Nodup
  fields : ∀ field ∈ message.fields, field.WellFormed schema
  ranges : ∀ range ∈ message.extensionRanges, Tag.min ≤ range.1 ∧ range.2 ≤ Tag.max

/-- The names of the values of an enum are unique; their numbers need not be. -/
def EnumType.WellFormed (enum : EnumType) : Prop :=
  (enum.values.map EnumValue.name).Nodup

/-- The rules on a schema. -/
structure Schema.WellFormed (schema : Schema) : Prop where
  names : (schema.definitions.map Definition.name).Nodup
  keywords : ∀ name ∈ schema.definitions.map Definition.name, Scalar.ofName? name = none
  messages : ∀ name message, ⟨name, .message message⟩ ∈ schema.definitions →
    message.WellFormed schema
  enums : ∀ name enum, ⟨name, .enum enum⟩ ∈ schema.definitions → enum.WellFormed
  frames : schema.HasSoundFrames

/-! ### Look-ups -/

namespace MessageType

variable {message : MessageType}

theorem mem_of_fieldByTag? {tag : Nat} {field : Field}
    (found : message.fieldByTag? tag = some field) :
    field ∈ message.fields ∧ field.tag = tag :=
  Keys.mem_of_getLast?_filter Field.tag found

theorem mem_of_fieldByName? {name : String} {field : Field}
    (found : message.fieldByName? name = some field) :
    field ∈ message.fields ∧ field.name = name :=
  Keys.mem_of_getLast?_filter Field.name found

theorem fieldByTag?_of_mem {field : Field}
    (distinct : (message.fields.map Field.tag).Nodup)
    (member : field ∈ message.fields) :
    message.fieldByTag? field.tag = some field :=
  Keys.getLast?_filter distinct member

theorem fieldByName?_of_mem {field : Field}
    (distinct : (message.fields.map Field.name).Nodup)
    (member : field ∈ message.fields) :
    message.fieldByName? field.name = some field :=
  Keys.getLast?_filter distinct member

theorem fieldByTag?_eq_none {tag : Nat} :
    message.fieldByTag? tag = none ↔ tag ∉ message.fields.map Field.tag :=
  Keys.getLast?_filter_eq_none Field.tag

theorem fieldByName?_eq_none {name : String} :
    message.fieldByName? name = none ↔ name ∉ message.fields.map Field.name :=
  Keys.getLast?_filter_eq_none Field.name

end MessageType

namespace EnumType

variable {enum : EnumType}

/-- A name that a number has leads back to the number. -/
theorem numberOf?_of_nameOf?
    (wellFormed : enum.WellFormed)
    {number : Int32}
    {name : String}
    (found : enum.nameOf? number = some name) :
    enum.numberOf? name = some number := by
  obtain ⟨value, first, rfl⟩ := Option.map_eq_some_iff.mp found
  have same : value.number = number := by
    have test := List.find?_some first
    exact eq_of_beq test
  have last := Keys.getLast?_filter wellFormed (List.mem_of_find?_eq_some first)
  rw [numberOf?, last, ← same]
  rfl

end EnumType

namespace Schema

variable {schema : Schema}

theorem indexOf?_eq_last? (schema : Schema) :
    schema.indexOf? = Places.last? Definition.name schema.definitions := rfl

theorem definition?_of_indexOf? {name : String} {index : Nat}
    (place : schema.indexOf? name = some index) :
    ∃ kind, schema.definition? index = some ⟨name, kind⟩ := by
  rw [indexOf?_eq_last?] at place
  obtain ⟨⟨full, kind⟩, found, rfl⟩ := Places.exists_of_last? place
  exact ⟨kind, found⟩

theorem indexOf?_eq_none {name : String} :
    schema.indexOf? name = none ↔ name ∉ schema.definitions.map Definition.name := by
  rw [indexOf?_eq_last?, Places.last?_eq_none]

/-- Under unique names, the place of a definition is found by its name. -/
theorem indexOf?_of_definition?
    (distinct : (schema.definitions.map Definition.name).Nodup)
    {index : Nat}
    {definition : Definition}
    (found : schema.definition? index = some definition) :
    schema.indexOf? definition.name = some index := by
  rw [indexOf?_eq_last?]
  exact Places.last?_of_getElem? distinct found

/-- Under unique names, definitions with the same name are the same. -/
theorem eq_of_name
    (distinct : (schema.definitions.map Definition.name).Nodup)
    {first second : Nat}
    {name : String}
    {firstKind secondKind : DefinitionKind}
    (firstFound : schema.definition? first = some ⟨name, firstKind⟩)
    (secondFound : schema.definition? second = some ⟨name, secondKind⟩) :
    first = second ∧ firstKind = secondKind := by
  have firstPlace := indexOf?_of_definition? distinct firstFound
  have secondPlace := indexOf?_of_definition? distinct secondFound
  obtain rfl := Option.some.inj (firstPlace.symm.trans secondPlace)
  cases firstFound.symm.trans secondFound
  exact ⟨rfl, rfl⟩

theorem kind_eq_of_name
    (distinct : (schema.definitions.map Definition.name).Nodup)
    {name : String}
    {first second : DefinitionKind}
    (firstMember : ⟨name, first⟩ ∈ schema.definitions)
    (secondMember : ⟨name, second⟩ ∈ schema.definitions) :
    first = second := by
  obtain ⟨place, firstFound⟩ := List.getElem?_of_mem firstMember
  obtain ⟨index, secondFound⟩ := List.getElem?_of_mem secondMember
  exact (eq_of_name distinct firstFound secondFound).2

theorem message_eq_of_name
    (distinct : (schema.definitions.map Definition.name).Nodup)
    {name : String}
    {first second : MessageType}
    (firstMember : ⟨name, .message first⟩ ∈ schema.definitions)
    (secondMember : ⟨name, .message second⟩ ∈ schema.definitions) :
    first = second :=
  DefinitionKind.message.inj (kind_eq_of_name distinct firstMember secondMember)

/-- A name that resolves to a definition is the name of the definition. -/
theorem definition?_of_resolve {name : String} {index : Nat}
    (resolved : schema.resolve name = .ok (.definition index)) :
    ∃ kind, schema.definition? index = some ⟨name, kind⟩ := by
  unfold resolve at resolved
  split at resolved
  · cases resolved
  · split at resolved
    · rename_i place
      cases resolved
      exact definition?_of_indexOf? place
    · cases resolved

theorem isPackable_iff {type : TypeRef} :
    schema.IsPackable type ↔ schema.wireType type ≠ .lengthDelimited := by
  cases type with
  | scalar type => cases type <;> simp [IsPackable, wireType, Scalar.wireType]
  | definition index =>
      simp only [IsPackable, wireType]
      rcases schema.definition? index with _ | ⟨name, _ | _ | _⟩ <;> simp

theorem isFieldType_outline (type : TypeRef) :
    schema.outline.IsFieldType type ↔ schema.IsFieldType type := by
  cases type with
  | scalar type => exact Iff.rfl
  | definition index =>
      change (∃ definition, schema.outline.definition? index = some definition ∧ _) ↔
        ∃ definition, schema.definition? index = some definition ∧ _
      rw [definition?_outline]
      rcases schema.definition? index with _ | ⟨name, _ | _ | _⟩ <;>
        simp [Definition.outline, DefinitionKind.outline]

end Schema

/-! ### Transport -/

/-- The rules on the fields of a message ask nothing of the fields of other messages. -/
theorem Field.WellFormed.transport
    {schema other : Schema}
    {field : Field}
    (same : other.outline = schema.outline)
    (wellFormed : field.WellFormed schema) :
    field.WellFormed other where
  positive := wellFormed.positive
  bounded := wellFormed.bounded
  type := by
    rw [← Schema.isFieldType_outline, same, Schema.isFieldType_outline]
    exact wellFormed.type
  packed := by
    rw [Schema.wireType_of_outline same]
    exact wellFormed.packed

theorem MessageType.WellFormed.transport
    {schema other : Schema}
    {message : MessageType}
    (same : other.outline = schema.outline)
    (wellFormed : message.WellFormed schema) :
    message.WellFormed other where
  tags := wellFormed.tags
  names := wellFormed.names
  fields := fun field member => (wellFormed.fields field member).transport same
  ranges := wellFormed.ranges

end ProtoWire
