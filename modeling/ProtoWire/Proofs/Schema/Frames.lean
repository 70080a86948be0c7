import ProtoWire.Proofs.Framing
import ProtoWire.Schema.Basic

/-!
Contract: frames around messages. A framed definition wraps a message directly, so that at most
one frame is opened around any type.

Owns:
- the schemas whose frames are sound;
- the layers of every kind of type in such a schema;
- the definitions whose values delimit themselves.

Does not own: reading and writing what the layers contain.
-/

namespace ProtoWire

namespace Schema

/-- Every framed definition wraps a message of the schema, with a fixed length or with a length
of an integer type in front. -/
def HasSoundFrames (schema : Schema) : Prop :=
  ∀ definition ∈ schema.definitions, ∀ type, definition.kind = .framed type →
    type.framing.IsSound ∧
      ∃ name message, schema.definition? type.inner = some ⟨name, .message message⟩

variable {schema : Schema}

theorem mem_of_definition? {index : Nat} {definition : Definition}
    (found : schema.definition? index = some definition) :
    definition ∈ schema.definitions :=
  List.mem_of_getElem? found

theorem layersWithin_scalar (count : Nat) (type : Scalar) :
    schema.layersWithin count (.scalar type) = ⟨[], .scalar type⟩ := by
  cases count <;> rfl

theorem layersWithin_missing {count index : Nat}
    (absent : schema.definition? index = none) :
    schema.layersWithin count (.definition index) = ⟨[], .missing index⟩ := by
  cases count <;> (unfold layersWithin; rw [absent])

theorem layersWithin_message {count index : Nat} {name : String} {type : MessageType}
    (found : schema.definition? index = some ⟨name, .message type⟩) :
    schema.layersWithin count (.definition index) = ⟨[], .message name type⟩ := by
  cases count <;> (unfold layersWithin; rw [found])

theorem layersWithin_enum {count index : Nat} {name : String} {type : EnumType}
    (found : schema.definition? index = some ⟨name, .enum type⟩) :
    schema.layersWithin count (.definition index) = ⟨[], .enum name type⟩ := by
  cases count <;> (unfold layersWithin; rw [found])

theorem layersWithin_framed {count index : Nat} {name : String} {type : FramedType}
    (found : schema.definition? index = some ⟨name, .framed type⟩) :
    schema.layersWithin (count + 1) (.definition index) =
      ⟨type.framing :: (schema.layersWithin count (.definition type.inner)).frames,
        (schema.layersWithin count (.definition type.inner)).core⟩ := by
  rw [layersWithin, found]

/-- The layers of a framed message. -/
theorem layersWithin_framed_message
    {count index : Nat}
    {name innerName : String}
    {type : FramedType}
    {message : MessageType}
    (found : schema.definition? index = some ⟨name, .framed type⟩)
    (inner : schema.definition? type.inner = some ⟨innerName, .message message⟩) :
    schema.layersWithin (count + 1) (.definition index) =
      ⟨[type.framing], .message innerName message⟩ := by
  rw [layersWithin_framed found, layersWithin_message inner]

theorem layers_framed_message
    {index : Nat}
    {name innerName : String}
    {type : FramedType}
    {message : MessageType}
    (found : schema.definition? index = some ⟨name, .framed type⟩)
    (inner : schema.definition? type.inner = some ⟨innerName, .message message⟩) :
    schema.layers (.definition index) = ⟨[type.framing], .message innerName message⟩ := by
  have positive : 0 < schema.definitions.length :=
    List.length_pos_of_mem (mem_of_definition? found)
  obtain ⟨others, count⟩ : ∃ others, schema.definitions.length = others + 1 :=
    ⟨schema.definitions.length - 1, by omega⟩
  rw [layers, count, layersWithin_framed_message found inner]

/-- Definitions whose values delimit themselves are enums. -/
theorem exists_enum_of_bare {index : Nat}
    (bare : schema.wireType (.definition index) ≠ .lengthDelimited) :
    ∃ name enum, schema.definition? index = some ⟨name, .enum enum⟩ := by
  rcases found : schema.definition? index with _ | ⟨name, message | enum | framed⟩
  · exact absurd (by rw [wireType, found]; rfl) bare
  · exact absurd (by rw [wireType, found]; rfl) bare
  · exact ⟨name, enum, rfl⟩
  · exact absurd (by rw [wireType, found]; rfl) bare

/-- The frames around a type are those of framed definitions. -/
theorem isSound_of_mem_frames
    (sound : schema.HasSoundFrames)
    {count : Nat}
    {type : TypeRef}
    {framing : Framing}
    (member : framing ∈ (schema.layersWithin count type).frames) :
    framing.IsSound := by
  induction count generalizing type with
  | zero =>
      unfold layersWithin at member
      split at member
      · cases member
      · split at member <;> cases member
  | succ count inductionHypothesis =>
      unfold layersWithin at member
      split at member
      · cases member
      · split at member
        · cases member
        · cases member
        · cases member
        · rename_i name framed found
          rcases List.mem_cons.mp member with rfl | inside
          · exact (sound _ (mem_of_definition? found) framed rfl).1
          · exact inductionHypothesis inside

end Schema

end ProtoWire
