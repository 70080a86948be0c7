import Mathlib.Data.List.Nodup
import Mathlib.Data.List.Perm.Basic
import ProtoWire.Proofs.Schema.WellFormed

/-!
Contract: schemas that hold the same definitions in different orders. References differ then, but
the names behind them do not, and everything that is found by a name is the same.

Owns:
- fields whose types are given by names;
- schemas with the same outlines in different orders;
- the look-ups in such schemas.

Does not own: how such schemas come about.
-/

namespace ProtoWire

/-! ### Names of types -/

/-- A scalar, or the full name of a definition. -/
def Schema.nameOf (schema : Schema) : TypeRef → Scalar ⊕ String
  | .scalar type => .inl type
  | .definition index => .inr (schema.typeName (.definition index))

/-- A field whose type is given by its name. -/
structure NamedField where
  name : String
  tag : Nat
  type : Scalar ⊕ String
  label : Label
  packed : Bool
deriving DecidableEq, Repr

/-- A field of a schema with the name of its type. -/
def Field.named (schema : Schema) (field : Field) : NamedField :=
  ⟨field.name, field.tag, schema.nameOf field.type, field.label, field.packed⟩

namespace Schema

variable {schema other : Schema}

theorem nameOf_definition {index : Nat} {name : String} {kind : DefinitionKind}
    (found : schema.definition? index = some ⟨name, kind⟩) :
    schema.nameOf (.definition index) = .inr name := by
  rw [nameOf, typeName, found]
  rfl

@[simp] theorem nameOf_outline (schema : Schema) : schema.outline.nameOf = schema.nameOf := by
  funext type
  cases type with
  | scalar type => rfl
  | definition index =>
      rw [nameOf, nameOf, typeName, typeName, definition?_outline, Option.map_map]
      rfl

theorem nameOf_of_outline (same : other.outline = schema.outline) :
    other.nameOf = schema.nameOf := by
  rw [← nameOf_outline, same, nameOf_outline]

theorem named_of_outline (same : other.outline = schema.outline) :
    Field.named other = Field.named schema := by
  funext field
  rw [Field.named, Field.named, nameOf_of_outline same]

/-- Under unique names, the name of a type tells it apart from all others. -/
theorem nameOf_injective
    (distinct : (schema.definitions.map Definition.name).Nodup)
    {first second : TypeRef}
    (firstHas : schema.Has first)
    (secondHas : schema.Has second)
    (same : schema.nameOf first = schema.nameOf second) :
    first = second := by
  cases first with
  | scalar type =>
      cases second with
      | scalar type => exact congrArg TypeRef.scalar (Sum.inl.inj same)
      | definition index => cases same
  | definition place =>
      cases second with
      | scalar type => cases same
      | definition index =>
          obtain ⟨⟨name, kind⟩, found⟩ := definition?_of_has firstHas
          obtain ⟨⟨again, other⟩, otherFound⟩ := definition?_of_has secondHas
          rw [nameOf_definition found, nameOf_definition otherFound] at same
          obtain rfl := Sum.inr.inj same
          rw [(eq_of_name distinct found otherFound).1]

theorem has_of_isFieldType {type : TypeRef} (legal : schema.IsFieldType type) :
    schema.Has type := by
  cases type with
  | scalar type => trivial
  | definition index =>
      obtain ⟨definition, found, -⟩ := legal
      exact (List.getElem?_eq_some_iff.mp found).1

theorem named_injective
    (distinct : (schema.definitions.map Definition.name).Nodup)
    {first second : Field}
    (firstHas : schema.Has first.type)
    (secondHas : schema.Has second.type)
    (same : first.named schema = second.named schema) :
    first = second := by
  obtain ⟨name, tag, type, label, packed⟩ := first
  obtain ⟨again, number, kind, mark, run⟩ := second
  obtain ⟨rfl, rfl, sameType, rfl, rfl⟩ := NamedField.mk.inj same
  obtain rfl := nameOf_injective distinct firstHas secondHas sameType
  rfl

/-- Fields with different numbers differ when their types are given by names, too. -/
theorem nodup_named {fields : List Field} (tags : (fields.map Field.tag).Nodup) :
    (fields.map (Field.named schema)).Nodup := by
  have view : Field.tag = NamedField.tag ∘ Field.named schema := rfl
  rw [view, ← List.map_map] at tags
  exact List.Nodup.of_map NamedField.tag tags

/-- A name is found exactly if some definition has it. -/
theorem map_indexOf? (schema : Schema) (name : String) :
    (schema.indexOf? name).map (fun index => schema.nameOf (.definition index)) =
      if name ∈ schema.definitions.map Definition.name then some (.inr name) else none := by
  cases place : schema.indexOf? name with
  | none => rw [if_neg (indexOf?_eq_none.mp place), Option.map_none]
  | some index =>
      obtain ⟨kind, found⟩ := definition?_of_indexOf? place
      have member : name ∈ schema.definitions.map Definition.name :=
        List.mem_map_of_mem (f := Definition.name) (mem_of_definition? found)
      rw [if_pos member, Option.map_some, nameOf_definition found]

/-! ### Reordered schemas -/

/-- Two schemas hold the same definitions, apart from the fields of messages, in any order. -/
structure Reorders (schema other : Schema) : Prop where
  distinct : (schema.definitions.map Definition.name).Nodup
  outlines : schema.outline.definitions.Perm other.outline.definitions

namespace Reorders

theorem names (reorders : schema.Reorders other) :
    (schema.definitions.map Definition.name).Perm (other.definitions.map Definition.name) := by
  rw [← names_outline, ← names_outline other]
  exact reorders.outlines.map Definition.name

theorem otherDistinct (reorders : schema.Reorders other) :
    (other.definitions.map Definition.name).Nodup :=
  reorders.names.nodup_iff.mp reorders.distinct

theorem symm (reorders : schema.Reorders other) : other.Reorders schema :=
  ⟨reorders.otherDistinct, reorders.outlines.symm⟩

theorem of_outlines
    {first second : Schema}
    (reorders : schema.Reorders other)
    (firstSame : first.outline = schema.outline)
    (secondSame : second.outline = other.outline) :
    first.Reorders second where
  distinct := by
    rw [names_of_outline firstSame]
    exact reorders.distinct
  outlines := by
    rw [firstSame, secondSame]
    exact reorders.outlines

/-- Definitions with one name differ in the fields of a message at most. -/
theorem kind_outline
    (reorders : schema.Reorders other)
    {name : String}
    {first second : DefinitionKind}
    (firstMember : ⟨name, first⟩ ∈ schema.definitions)
    (secondMember : ⟨name, second⟩ ∈ other.definitions) :
    first.outline = second.outline := by
  have inside : ⟨name, first.outline⟩ ∈ other.outline.definitions :=
    reorders.outlines.mem_iff.mp (List.mem_map_of_mem (f := Definition.outline) firstMember)
  have again : ⟨name, second.outline⟩ ∈ other.outline.definitions :=
    List.mem_map_of_mem (f := Definition.outline) secondMember
  have distinct : (other.outline.definitions.map Definition.name).Nodup := by
    rw [names_outline]
    exact reorders.otherDistinct
  exact kind_eq_of_name distinct inside again

/-- A definition has a counterpart under its name. -/
theorem exists_of_mem
    (reorders : schema.Reorders other)
    {name : String}
    {kind : DefinitionKind}
    (member : ⟨name, kind⟩ ∈ schema.definitions) :
    ∃ again, ⟨name, again⟩ ∈ other.definitions ∧ kind.outline = again.outline := by
  have named : name ∈ other.definitions.map Definition.name :=
    reorders.names.mem_iff.mp (List.mem_map_of_mem (f := Definition.name) member)
  obtain ⟨⟨full, again⟩, inside, rfl⟩ := List.mem_map.mp named
  exact ⟨again, inside, reorders.kind_outline member inside⟩

theorem map_indexOf? (reorders : schema.Reorders other) (name : String) :
    (schema.indexOf? name).map (fun index => schema.nameOf (.definition index)) =
      (other.indexOf? name).map fun index => other.nameOf (.definition index) := by
  rw [Schema.map_indexOf?, Schema.map_indexOf?]
  congr 1
  exact propext reorders.names.mem_iff

/-- Types with the same name are both scalars, or they lead to definitions with one outline. -/
theorem alike
    (reorders : schema.Reorders other)
    {first second : TypeRef}
    (firstHas : schema.Has first)
    (secondHas : other.Has second)
    (same : schema.nameOf first = other.nameOf second) :
    (∃ type, first = .scalar type ∧ second = .scalar type) ∨
      ∃ index place name firstKind secondKind,
        first = .definition index ∧ second = .definition place ∧
          schema.definition? index = some ⟨name, firstKind⟩ ∧
            other.definition? place = some ⟨name, secondKind⟩ ∧
              firstKind.outline = secondKind.outline := by
  cases first with
  | scalar type =>
      cases second with
      | scalar again =>
          obtain rfl : type = again := Sum.inl.inj same
          exact .inl ⟨type, rfl, rfl⟩
      | definition index => cases same
  | definition index =>
      cases second with
      | scalar type => cases same
      | definition place =>
          obtain ⟨⟨name, kind⟩, found⟩ := definition?_of_has firstHas
          obtain ⟨⟨again, other⟩, otherFound⟩ := definition?_of_has secondHas
          rw [nameOf_definition found, nameOf_definition otherFound] at same
          obtain rfl := Sum.inr.inj same
          exact .inr ⟨index, place, name, kind, other, rfl, rfl, found, otherFound,
            reorders.kind_outline (mem_of_definition? found) (mem_of_definition? otherFound)⟩

theorem wireType
    (reorders : schema.Reorders other)
    {first second : TypeRef}
    (firstHas : schema.Has first)
    (secondHas : other.Has second)
    (same : schema.nameOf first = other.nameOf second) :
    schema.wireType first = other.wireType second := by
  obtain ⟨type, rfl, rfl⟩ |
      ⟨index, place, name, kind, again, rfl, rfl, found, otherFound, outlines⟩ :=
    reorders.alike firstHas secondHas same
  · rfl
  · rw [← wireType_outline, ← wireType_outline other, Schema.wireType, Schema.wireType,
      definition?_outline, definition?_outline, found, otherFound]
    simp only [Option.map_some, Definition.outline, outlines]

end Reorders

/-- Reordered schemas in which messages with one name have the same fields. -/
structure Mirrors (schema other : Schema) : Prop where
  reorders : schema.Reorders other
  fields : ∀ name message again, ⟨name, .message message⟩ ∈ schema.definitions →
    ⟨name, .message again⟩ ∈ other.definitions →
      message.fields.map (Field.named schema) = again.fields.map (Field.named other)

namespace Mirrors

theorem symm (mirrors : schema.Mirrors other) : other.Mirrors schema :=
  ⟨mirrors.reorders.symm, fun name message again member otherMember =>
    (mirrors.fields name again message otherMember member).symm⟩

/-- A message has a counterpart with the same ranges and the same fields. -/
theorem exists_message
    (mirrors : schema.Mirrors other)
    {name : String}
    {message : MessageType}
    (member : ⟨name, .message message⟩ ∈ schema.definitions) :
    ∃ again, ⟨name, .message again⟩ ∈ other.definitions ∧
      again.extensionRanges = message.extensionRanges ∧
        message.fields.map (Field.named schema) = again.fields.map (Field.named other) := by
  obtain ⟨kind, otherMember, outlines⟩ := mirrors.reorders.exists_of_mem member
  cases kind with
  | message again =>
      have ranges := congrArg MessageType.extensionRanges (DefinitionKind.message.inj outlines)
      exact ⟨again, otherMember, ranges.symm, mirrors.fields name message again member otherMember⟩
  | enum type => cases outlines
  | framed type => cases outlines

end Mirrors

end Schema

end ProtoWire
