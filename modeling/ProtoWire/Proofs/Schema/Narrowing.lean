import ProtoWire.Proofs.Schema.WellFormed

/-!
Contract: schemas that differ in the fields of their messages only, where one has a part of the
fields of the other, as an older version of a set of sources has.

Owns:
- the relation between the older and the newer schema;
- the definitions and the fields that the older schema finds, in terms of the newer one.

Does not own: reading with either schema.
-/

namespace ProtoWire

namespace Schema

/-- The names and the field numbers of every message are unique. -/
structure HasDistinctFields (schema : Schema) : Prop where
  tags : ∀ name message, ⟨name, .message message⟩ ∈ schema.definitions →
    (message.fields.map Field.tag).Nodup
  names : ∀ name message, ⟨name, .message message⟩ ∈ schema.definitions →
    (message.fields.map Field.name).Nodup

theorem WellFormed.hasDistinctFields {schema : Schema} (wellFormed : schema.WellFormed) :
    schema.HasDistinctFields where
  tags := fun name message member => (wellFormed.messages name message member).tags
  names := fun name message member => (wellFormed.messages name message member).names

/-- Both schemas have the same definitions in the same order, except that every message of the
first keeps only some of the fields that it has in the second. -/
structure Narrows (old new : Schema) : Prop where
  outline : old.outline = new.outline
  fields : ∀ index name few many,
    old.definition? index = some ⟨name, .message few⟩ →
      new.definition? index = some ⟨name, .message many⟩ → few.fields.Sublist many.fields

namespace Narrows

variable
  {old new : Schema}
  (narrows : old.Narrows new)

include narrows

theorem resolve (name : String) : old.resolve name = new.resolve name := by
  rw [← resolve_outline, narrows.outline, resolve_outline]

theorem wireType (type : TypeRef) : old.wireType type = new.wireType type := by
  rw [wireType_of_outline narrows.outline]

theorem hasSoundFrames (sound : new.HasSoundFrames) : old.HasSoundFrames := by
  rwa [← hasSoundFrames_outline, narrows.outline, hasSoundFrames_outline]

theorem definition?_message {index : Nat} {name : String} {many : MessageType}
    (found : new.definition? index = some ⟨name, .message many⟩) :
    ∃ few, old.definition? index = some ⟨name, .message few⟩ ∧
      few.fields.Sublist many.fields := by
  have outlined :
      old.outline.definition? index = some ⟨name, .message ⟨[], many.extensionRanges⟩⟩ := by
    rw [narrows.outline, definition?_outline, found]
    rfl
  obtain ⟨few, kept⟩ := definition?_of_outline_message outlined
  exact ⟨few, kept, narrows.fields index name few many kept found⟩

/-- Definitions other than messages are the same. -/
theorem definition?_eq {index : Nat} {definition : Definition}
    (found : new.definition? index = some definition)
    (noMessage : ∀ message, definition.kind ≠ .message message) :
    old.definition? index = some definition := by
  have outlined : (old.definition? index).map Definition.outline = some definition.outline := by
    rw [← definition?_outline, narrows.outline, definition?_outline, found]
    rfl
  obtain ⟨other, kept, same⟩ := Option.map_eq_some_iff.mp outlined
  obtain ⟨name, kind⟩ := definition
  obtain ⟨otherName, otherKind⟩ := other
  obtain rfl : otherName = name := congrArg Definition.name same
  have kinds : otherKind.outline = kind.outline := congrArg Definition.kind same
  rw [kept]
  cases kind with
  | message message => exact absurd rfl (noMessage message)
  | enum enum => cases otherKind <;> cases kinds; rfl
  | framed framed => cases otherKind <;> cases kinds; rfl

end Narrows

end Schema

/-! ### Fields -/

namespace MessageType

variable {few many : MessageType}

/-- A field number of a field that is kept leads to this field in both messages. -/
theorem fieldByTag?_of_sublist
    (part : few.fields.Sublist many.fields)
    (distinct : (many.fields.map Field.tag).Nodup)
    {field : Field}
    (kept : field ∈ few.fields) :
    few.fieldByTag? field.tag = some field :=
  fieldByTag?_of_mem (distinct.sublist (part.map Field.tag)) kept

theorem fieldByName?_of_sublist
    (part : few.fields.Sublist many.fields)
    (distinct : (many.fields.map Field.name).Nodup)
    {field : Field}
    (kept : field ∈ few.fields) :
    few.fieldByName? field.name = some field :=
  fieldByName?_of_mem (distinct.sublist (part.map Field.name)) kept

/-- The field number of a field that is dropped leads nowhere. -/
theorem fieldByTag?_of_dropped
    (part : few.fields.Sublist many.fields)
    (distinct : (many.fields.map Field.tag).Nodup)
    {field : Field}
    (member : field ∈ many.fields)
    (dropped : field ∉ few.fields) :
    few.fieldByTag? field.tag = none := by
  rw [fieldByTag?_eq_none]
  exact Keys.not_mem_of_sublist part distinct member dropped

theorem fieldByName?_of_dropped
    (part : few.fields.Sublist many.fields)
    (distinct : (many.fields.map Field.name).Nodup)
    {field : Field}
    (member : field ∈ many.fields)
    (dropped : field ∉ few.fields) :
    few.fieldByName? field.name = none := by
  rw [fieldByName?_eq_none]
  exact Keys.not_mem_of_sublist part distinct member dropped

/-- A field number that nothing has in the larger message has nothing in the smaller one. -/
theorem fieldByTag?_of_unknown
    (part : few.fields.Sublist many.fields)
    {tag : Nat}
    (unknown : many.fieldByTag? tag = none) :
    few.fieldByTag? tag = none := by
  rw [fieldByTag?_eq_none] at unknown ⊢
  exact fun kept => unknown ((part.map Field.tag).subset kept)

end MessageType

end ProtoWire
