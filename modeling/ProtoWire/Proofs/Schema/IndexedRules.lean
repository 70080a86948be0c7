import ProtoWire.Proofs.Schema.Indexed
import ProtoWire.Proofs.Schema.Lookup

/-!
Contract: the rules on schemas that keep maps beside their lists. The lists obey the rules on
schemas, and the maps are the inverses of the lists, so that a look-up by them returns what has the
name or the number, and nothing else. Of the values of an enum with one number, it returns the first.

Owns:
- the rules on messages, enums and schemas with maps;
- these rules, from the rules on the lists and from maps that agree with them.

Does not own: which schemas obey the rules, or when the maps agree.
-/

namespace ProtoWire

/-! ### Rules -/

/-- The rules on a message of a schema. -/
structure IndexedMessage.WellFormed (schema : Schema) (message : IndexedMessage) : Prop where
  tags : (message.fields.map Field.tag).Nodup
  names : (message.fields.map Field.name).Nodup
  bounds : ∀ field ∈ message.fields, 1 ≤ field.tag ∧ field.tag ≤ 536870911
  types : ∀ field ∈ message.fields, schema.IsFieldType field.type
  packed : ∀ field ∈ message.fields, field.packed = true →
    field.label = .repeated ∧ schema.IsPackable field.type
  placesByTag : ∀ tag place, message.placesByTag[tag]? = some place ↔
    ∃ field : Field, message.fields[place]? = some field ∧ field.tag = tag
  placesByName : ∀ name place, message.placesByName[name]? = some place ↔
    ∃ field : Field, message.fields[place]? = some field ∧ field.name = name
  fieldsByTag : ∀ tag field, message.fieldByTag? tag = some field ↔
    field ∈ message.fields ∧ field.tag = tag
  fieldsByName : ∀ name field, message.fieldByName? name = some field ↔
    field ∈ message.fields ∧ field.name = name

/-- The rules on an enum. A name has one number; a number has the name that is declared first. -/
structure IndexedEnum.WellFormed (enum : IndexedEnum) : Prop where
  names : (enum.values.map EnumValue.name).Nodup
  numbers : ∀ name number, enum.numberOf? name = some number ↔ ⟨name, number⟩ ∈ enum.values
  firstNames : ∀ number name, enum.nameOf? number = some name ↔
    ∃ before after, enum.values = before ++ ⟨name, number⟩ :: after ∧
      ∀ value ∈ before, value.number ≠ number

/-- The rules on a schema. -/
structure IndexedSchema.WellFormed (schema : IndexedSchema) : Prop where
  names : (schema.definitions.map IndexedDefinition.name).Nodup
  keywords : ∀ definition ∈ schema.definitions, ∀ scalar : Scalar, definition.name ≠ scalar.name
  indices : ∀ (place : Nat) (definition : IndexedDefinition),
    schema.definitions[place]? = some definition → definition.index = place
  places : ∀ name place, schema.places[name]? = some place ↔
    ∃ definition : IndexedDefinition,
      schema.definitions[place]? = some definition ∧ definition.name = name
  messages : ∀ definition ∈ schema.definitions, ∀ type, definition.kind = .message type →
    type.WellFormed schema.plain
  enums : ∀ definition ∈ schema.definitions, ∀ type, definition.kind = .enum type →
    type.WellFormed
  frames : ∀ definition ∈ schema.definitions, ∀ type, definition.kind = .framed type →
    (∀ lengthType, type.framing = .prefixed lengthType →
      lengthType ∈ [.int32, .int64, .uint32, .uint64, .sint32, .sint64,
        .fixed32, .fixed64, .sfixed32, .sfixed64]) ∧
      ∃ (inner : IndexedDefinition) (message : IndexedMessage),
        schema.definitions[type.inner]? = some inner ∧ inner.kind = .message message

/-! ### The rules on the lists -/

theorem Framing.IsSound.mem_integers
    {lengthType : Scalar}
    (sound : (prefixed lengthType).IsSound) :
    lengthType ∈ [.int32, .int64, .uint32, .uint64, .sint32, .sint64,
      .fixed32, .fixed64, .sfixed32, .sfixed64] := by
  cases lengthType <;> first | decide | cases sound

namespace IndexedMessage

variable {schema : Schema} {message : IndexedMessage}

/-- If the fields of a message obey the rules and its maps agree, the message obeys the rules. -/
theorem Agrees.wellFormed
    (agrees : message.Agrees)
    (lists : message.toMessageType.WellFormed schema) :
    message.WellFormed schema where
  tags := lists.tags
  names := lists.names
  bounds field member := ⟨(lists.fields field member).positive, (lists.fields field member).bounded⟩
  types field member := (lists.fields field member).type
  packed field member isPacked := by
    obtain ⟨isRepeated, selfDelimiting⟩ := (lists.fields field member).packed isPacked
    exact ⟨eq_of_beq isRepeated, Schema.isPackable_iff.mpr selfDelimiting⟩
  placesByTag _ _ := agrees.tags.eq_some lists.tags
  placesByName _ _ := agrees.names.eq_some lists.names
  fieldsByTag tag _ := by
    rw [agrees.fieldByTag?_eq tag]
    exact lists.fieldByTag?_eq_some
  fieldsByName name _ := by
    rw [agrees.fieldByName?_eq name]
    exact lists.fieldByName?_eq_some

end IndexedMessage

theorem IndexedEnum.Agrees.wellFormed
    {enum : IndexedEnum}
    (agrees : enum.Agrees)
    (lists : enum.toEnumType.WellFormed) :
    enum.WellFormed where
  names := lists
  numbers name _ := by
    rw [agrees.numberOf?_eq name]
    exact lists.numberOf?_eq_some
  firstNames number _ := by
    rw [agrees.nameOf?_eq number]
    exact EnumType.nameOf?_eq_some

namespace IndexedSchema

variable {schema : IndexedSchema}

private theorem mem_plain
    {definition : IndexedDefinition}
    (member : definition ∈ schema.definitions)
    {kind : IndexedKind}
    (same : definition.kind = kind) :
    ⟨definition.name, kind.plain⟩ ∈ schema.plain.definitions := by
  subst same
  exact List.mem_map_of_mem member

/-- If the lists of a schema obey the rules and its maps agree, the schema obeys the rules. -/
theorem Agrees.wellFormed (agrees : schema.Agrees) (lists : schema.plain.WellFormed) :
    schema.WellFormed := by
  have names : (schema.definitions.map IndexedDefinition.name).Nodup := by
    rw [← schema.names_plain]
    exact lists.names
  refine
    { names := names
      keywords := fun definition member scalar same => ?_
      indices := agrees.indices
      places := fun _ _ => agrees.places.eq_some names
      messages := fun definition member type isMessage => ?_
      enums := fun definition member type isEnum => ?_
      frames := fun definition member type isFramed => ?_ }
  · have free := lists.keywords definition.name (List.mem_map_of_mem (mem_plain member rfl))
    rw [same, Scalar.ofName?_name] at free
    cases free
  · have kindAgrees := agrees.kinds definition member
    rw [isMessage] at kindAgrees
    exact kindAgrees.wellFormed (lists.messages _ _ (mem_plain member isMessage))
  · have kindAgrees := agrees.kinds definition member
    rw [isEnum] at kindAgrees
    exact kindAgrees.wellFormed (lists.enums _ _ (mem_plain member isEnum))
  · obtain ⟨sound, name, message, inner⟩ :=
      lists.frames _ (mem_plain member isFramed) type rfl
    refine ⟨fun lengthType framing => ?_, ?_⟩
    · rw [framing] at sound
      exact sound.mem_integers
    · rw [definition?_plain] at inner
      obtain ⟨⟨full, index, kind⟩, found, same⟩ := Option.map_eq_some_iff.mp inner
      cases kind with
      | message type => exact ⟨_, type, found, rfl⟩
      | enum type => cases same
      | framed type => cases same

end IndexedSchema

end ProtoWire
