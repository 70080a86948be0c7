import ProtoWire.Proofs.Schema.WellFormed

/-!
Contract: the rules on schemas can be checked one definition at a time, so that a given schema is
found to obey them by evaluation.

Owns:
- the rules on one definition, and the rules on a schema in terms of them;
- the decision procedures for all of these.

Does not own: the rules.
-/

namespace ProtoWire

/-- The rules on a definition, whatever the other definitions are called. -/
def Definition.Obeys (schema : Schema) (definition : Definition) : Prop :=
  match definition.kind with
  | .message type => type.WellFormed schema
  | .enum type => type.WellFormed
  | .framed type => type.framing.IsSound ∧ ((schema.definition? type.inner).bind
      Definition.message?).isSome = true

theorem Schema.exists_message_iff {schema : Schema} {index : Nat} :
    ((schema.definition? index).bind Definition.message?).isSome = true ↔
      ∃ name message, schema.definition? index = some ⟨name, .message message⟩ := by
  rcases schema.definition? index with _ | ⟨name, message | enum | framed⟩ <;>
    simp [Definition.message?]

theorem Schema.wellFormed_iff {schema : Schema} :
    schema.WellFormed ↔
      (schema.definitions.map Definition.name).Nodup ∧
        (∀ name ∈ schema.definitions.map Definition.name, Scalar.ofName? name = none) ∧
          ∀ definition ∈ schema.definitions, definition.Obeys schema := by
  constructor
  · intro wellFormed
    refine ⟨wellFormed.names, wellFormed.keywords, ?_⟩
    rintro ⟨name, message | enum | framed⟩ member
    · exact wellFormed.messages name message member
    · exact wellFormed.enums name enum member
    · obtain ⟨sound, inner⟩ := wellFormed.frames _ member framed rfl
      exact ⟨sound, exists_message_iff.mpr inner⟩
  · rintro ⟨names, keywords, obeyed⟩
    refine ⟨names, keywords, fun name message member => obeyed _ member,
      fun name enum member => obeyed _ member, ?_⟩
    rintro ⟨name, kind⟩ member framed rfl
    obtain ⟨sound, inner⟩ := obeyed _ member
    exact ⟨sound, exists_message_iff.mp inner⟩

/-! ### Decision procedures -/

instance (schema : Schema) : DecidablePred schema.IsFieldType
  | .scalar _ => .isTrue trivial
  | .definition index =>
      decidable_of_iff
        (((schema.definition? index).map Definition.kind).any
          fun kind => kind matches .message _ | .enum _) <| by
        simp only [Schema.IsFieldType]
        rcases schema.definition? index with _ | ⟨name, message | enum | framed⟩ <;> simp

instance (schema : Schema) (field : Field) : Decidable (field.WellFormed schema) :=
  decidable_of_iff
    (Tag.min ≤ field.tag ∧ field.tag ≤ Tag.max ∧ schema.IsFieldType field.type ∧
      (field.packed = true →
        field.isRepeated = true ∧ schema.wireType field.type ≠ .lengthDelimited))
    ⟨fun ⟨positive, bounded, type, packed⟩ => ⟨positive, bounded, type, packed⟩,
      fun rules => ⟨rules.positive, rules.bounded, rules.type, rules.packed⟩⟩

instance (schema : Schema) (message : MessageType) : Decidable (message.WellFormed schema) :=
  decidable_of_iff
    ((message.fields.map Field.tag).Nodup ∧ (message.fields.map Field.name).Nodup ∧
      (∀ field ∈ message.fields, field.WellFormed schema) ∧
      ∀ range ∈ message.extensionRanges, Tag.min ≤ range.1 ∧ range.2 ≤ Tag.max)
    ⟨fun ⟨tags, names, fields, ranges⟩ => ⟨tags, names, fields, ranges⟩,
      fun rules => ⟨rules.tags, rules.names, rules.fields, rules.ranges⟩⟩

instance (enum : EnumType) : Decidable enum.WellFormed :=
  inferInstanceAs (Decidable (enum.values.map EnumValue.name).Nodup)

instance (schema : Schema) : DecidablePred (Definition.Obeys schema)
  | ⟨_, .message type⟩ => inferInstanceAs (Decidable (type.WellFormed schema))
  | ⟨_, .enum type⟩ => inferInstanceAs (Decidable type.WellFormed)
  | ⟨_, .framed type⟩ => inferInstanceAs (Decidable (type.framing.IsSound ∧ _ = true))

instance (schema : Schema) : Decidable schema.WellFormed :=
  decidable_of_iff _ Schema.wellFormed_iff.symm

end ProtoWire
