import ProtoWire.Proofs.Schema.Frames

/-!
Contract: what is left of a schema when the fields of its messages are dropped. Names are resolved
and types are delimited by the outline alone, so that adding fields changes neither.

Owns:
- the outline of a schema;
- the look-ups that an outline decides, and the definitions behind it;
- the outline of a schema with one more field.

Does not own: which fields a message has.
-/

namespace ProtoWire

/-- A message keeps its extension ranges only. -/
def DefinitionKind.outline : DefinitionKind → DefinitionKind
  | .message type => .message ⟨[], type.extensionRanges⟩
  | .enum type => .enum type
  | .framed type => .framed type

def Definition.outline (definition : Definition) : Definition :=
  ⟨definition.name, definition.kind.outline⟩

namespace Schema

/-- The definitions without the fields of messages. -/
def outline (schema : Schema) : Schema :=
  ⟨schema.definitions.map Definition.outline⟩

variable {schema : Schema}

theorem definition?_outline (schema : Schema) (index : Nat) :
    schema.outline.definition? index = (schema.definition? index).map Definition.outline :=
  List.getElem?_map

theorem names_outline (schema : Schema) :
    schema.outline.definitions.map Definition.name = schema.definitions.map Definition.name :=
  List.map_map

@[simp] theorem indexOf?_outline (schema : Schema) (name : String) :
    schema.outline.indexOf? name = schema.indexOf? name := by
  have entries :
      schema.outline.definitions.zipIdx =
        schema.definitions.zipIdx.map fun entry => (entry.1.outline, entry.2) := by
    rw [outline, List.zipIdx_map]
    rfl
  rw [indexOf?, entries, List.filter_map, List.getLast?_map, Option.map_map]
  rfl

@[simp] theorem resolve_outline (schema : Schema) (name : String) :
    schema.outline.resolve name = schema.resolve name := by
  unfold resolve
  rw [indexOf?_outline]

@[simp] theorem wireType_outline (schema : Schema) (type : TypeRef) :
    schema.outline.wireType type = schema.wireType type := by
  cases type with
  | scalar type => rfl
  | definition index =>
      rw [wireType, wireType, definition?_outline]
      rcases schema.definition? index with _ | ⟨name, _ | _ | _⟩ <;> rfl

section SameOutline

variable
  {other : Schema}
  (same : other.outline = schema.outline)

include same

theorem names_of_outline :
    other.definitions.map Definition.name = schema.definitions.map Definition.name := by
  rw [← names_outline, same, names_outline]

theorem indexOf?_of_outline (name : String) : other.indexOf? name = schema.indexOf? name := by
  rw [← indexOf?_outline, same, indexOf?_outline]

theorem wireType_of_outline (type : TypeRef) : other.wireType type = schema.wireType type := by
  rw [← wireType_outline, same, wireType_outline]

end SameOutline

/-! ### Definitions behind an outline -/

theorem definition?_of_outline_message {index : Nat} {name : String} {type : MessageType}
    (found : schema.outline.definition? index = some ⟨name, .message type⟩) :
    ∃ message, schema.definition? index = some ⟨name, .message message⟩ := by
  rw [definition?_outline, Option.map_eq_some_iff] at found
  obtain ⟨⟨full, kind⟩, found, outlined⟩ := found
  cases kind with
  | message message =>
      obtain rfl : full = name := congrArg Definition.name outlined
      exact ⟨message, found⟩
  | enum type => cases congrArg Definition.kind outlined
  | framed type => cases congrArg Definition.kind outlined

/-- Schemas with the same outline have the same names at the same places. -/
theorem name_of_outline
    {other : Schema}
    (same : other.outline = schema.outline)
    {index : Nat}
    {name : String}
    {kind : DefinitionKind}
    (found : schema.definition? index = some ⟨name, kind⟩) :
    ∃ again, other.definition? index = some ⟨name, again⟩ := by
  have outlined := definition?_outline other index
  rw [same, definition?_outline, found] at outlined
  obtain ⟨⟨full, again⟩, place, shape⟩ := Option.map_eq_some_iff.mp outlined.symm
  obtain rfl : full = name := congrArg Definition.name shape
  exact ⟨again, place⟩

/-- Schemas with the same outline have messages with the same ranges at the same places. -/
theorem message_of_outline
    {other : Schema}
    (same : other.outline = schema.outline)
    {index : Nat}
    {name : String}
    {message : MessageType}
    (found : schema.definition? index = some ⟨name, .message message⟩) :
    ∃ fields, other.definition? index = some ⟨name, .message ⟨fields, message.extensionRanges⟩⟩ := by
  have outlined := definition?_outline other index
  rw [same, definition?_outline, found] at outlined
  obtain ⟨⟨full, again⟩, place, shape⟩ := Option.map_eq_some_iff.mp outlined.symm
  obtain rfl : full = name := congrArg Definition.name shape
  have kinds : again.outline = .message ⟨[], message.extensionRanges⟩ :=
    congrArg Definition.kind shape
  cases again with
  | message type =>
      obtain ⟨fields, ranges⟩ := type
      obtain rfl : ranges = message.extensionRanges :=
        (MessageType.mk.inj (DefinitionKind.message.inj kinds)).2
      exact ⟨fields, place⟩
  | enum type => cases kinds
  | framed type => cases kinds

theorem hasSoundFrames_outline : schema.outline.HasSoundFrames ↔ schema.HasSoundFrames := by
  constructor
  · intro sound definition member type framed
    have outlined : definition.outline.kind = .framed type := by
      rw [Definition.outline, framed]
      rfl
    obtain ⟨framing, name, message, inner⟩ :=
      sound definition.outline (List.mem_map_of_mem member) type outlined
    obtain ⟨message, inner⟩ := definition?_of_outline_message inner
    exact ⟨framing, name, message, inner⟩
  · intro sound definition member type framed
    obtain ⟨⟨name, kind⟩, inside, rfl⟩ := List.mem_map.mp member
    cases kind with
    | message message => cases framed
    | enum enum => cases framed
    | framed same =>
        obtain ⟨framing, innerName, message, inner⟩ := sound ⟨name, .framed same⟩ inside same rfl
        obtain rfl : same = type := DefinitionKind.framed.inj framed
        refine ⟨framing, innerName, ⟨[], message.extensionRanges⟩, ?_⟩
        rw [definition?_outline, inner]
        rfl

/-! ### Adding fields -/

/-- The message under a name gets a field; nothing else changes. -/
theorem pushField_of_indexOf?
    {index : Nat}
    {name full : String}
    {message : MessageType}
    {field : Field}
    (place : schema.indexOf? name = some index)
    (found : schema.definition? index = some ⟨full, .message message⟩) :
    schema.pushField name field =
      ⟨schema.definitions.set index ⟨full, .message (message.push field)⟩⟩ := by
  unfold pushField
  rw [place]
  simp only [found]

@[simp] theorem outline_pushField (schema : Schema) (name : String) (field : Field) :
    (schema.pushField name field).outline = schema.outline := by
  cases place : schema.indexOf? name with
  | none =>
      unfold pushField
      rw [place]
  | some index =>
      rcases found : schema.definition? index with _ | ⟨full, message | enum | framed⟩
      · unfold pushField
        rw [place]
        simp only [found]
      · rw [pushField_of_indexOf? place found, outline, outline, List.map_set]
        have same : (schema.definitions.map Definition.outline)[index]? =
            some ⟨full, .message ⟨[], message.extensionRanges⟩⟩ := by
          rw [List.getElem?_map]
          exact congrArg (Option.map Definition.outline) found
        obtain ⟨bound, same⟩ := List.getElem?_eq_some_iff.mp same
        congr 1
        change (schema.definitions.map Definition.outline).set index
          ⟨full, .message ⟨[], message.extensionRanges⟩⟩ = _
        rw [← same, List.set_getElem_self]
      · unfold pushField
        rw [place]
        simp only [found]
      · unfold pushField
        rw [place]
        simp only [found]

end Schema

end ProtoWire
