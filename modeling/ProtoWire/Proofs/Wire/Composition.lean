import ProtoWire.Codec.Scalar
import ProtoWire.Framing
import ProtoWire.Wire.Key

/-!
Contract: properties that a reader has because its parts have them. Such a property is shown for
single numbers and runs of bytes, and holds of the readers that are put together from these.

Owns:
- properties that sequences keep, and those that numbers, runs and regions have as well;
- the readers of keys, of payloads to pass over, of scalars and of lengths, for every such property.

Does not own: the properties.
-/

namespace ProtoWire

namespace Reader

variable {α β : Type} {property : {α : Type} → Reader α → Prop}

/-- Sequences of readers with the property have it, and so do readers that move nowhere. -/
structure KeptBySequences (property : {α : Type} → Reader α → Prop) : Prop where
  returning : ∀ {α : Type} (value : α), property (pure value : Reader α)
  failing : ∀ {α : Type} (cause : WireError), property (throw cause : Reader α)
  sequence : ∀ {α β : Type} {first : Reader α} {next : α → Reader β},
    property first → (∀ value, property (next value)) → property (first >>= next)

/-- Besides, numbers and runs of bytes are read with the property. A region has it whatever is read
inside of it. -/
structure KeptByReaders (property : {α : Type} → Reader α → Prop) : Prop
    extends KeptBySequences property where
  varint : property varint
  bytes : ∀ count : Nat, property (bytes count)
  within : ∀ {α : Type} (region : List UInt8) (reader : Reader α), property (within region reader)

namespace KeptBySequences

theorem map (kept : KeptBySequences property) {reader : Reader α} (has : property reader)
    (f : α → β) : property (f <$> reader) := by
  rw [← bind_pure_comp]
  exact kept.sequence has fun value => kept.returning (f value)

/-- The groups of a number are bytes. -/
theorem varintGroups (kept : KeptBySequences property) (byte : property byte)
    (start groups : Nat) : property (varintGroups start groups) := by
  induction groups with
  | zero => exact kept.failing _
  | succ groups inductionHypothesis =>
      unfold Reader.varintGroups
      apply kept.sequence byte
      intro group
      split
      · exact kept.returning _
      · exact kept.sequence inductionHypothesis fun higher => kept.returning _

end KeptBySequences

namespace KeptByReaders

theorem lengthDelimited (kept : KeptByReaders property) : property lengthDelimited :=
  kept.sequence kept.varint fun _ => kept.bytes _

theorem fixed32 (kept : KeptByReaders property) : property fixed32 :=
  kept.map (kept.bytes 4) _

theorem fixed64 (kept : KeptByReaders property) : property fixed64 :=
  kept.map (kept.bytes 8) _

theorem key (kept : KeptByReaders property) : property key := by
  apply kept.sequence kept.varint
  intro word
  cases WireType.ofNumber? (word.toNat % 8) with
  | none =>
      apply iteInduction
      · exact fun _ => kept.sequence (kept.failing _) fun _ => kept.failing _
      · exact fun _ => kept.failing _
  | some wireType =>
      apply iteInduction
      · exact fun _ => kept.sequence (kept.failing _) fun _ => kept.returning _
      · exact fun _ => kept.returning _

theorem skip (kept : KeptByReaders property) (wireType : WireType) :
    property (skip wireType) := by
  cases wireType with
  | varint => exact kept.map kept.varint _
  | fixed64 => exact kept.map (kept.bytes 8) _
  | lengthDelimited => exact kept.map kept.lengthDelimited _
  | fixed32 => exact kept.map (kept.bytes 4) _

/-- Text and byte strings take all bytes that are left, and are excepted. -/
theorem scalar (kept : KeptByReaders property) {type : Scalar}
    (bare : type.wireType ≠ .lengthDelimited) : property type.read := by
  cases type with
  | string => exact absurd rfl bare
  | bytes => exact absurd rfl bare
  | fixed32 | float => exact kept.map kept.fixed32 _
  | sfixed32 => exact kept.map (kept.map kept.fixed32 _) _
  | fixed64 | double => exact kept.map kept.fixed64 _
  | sfixed64 => exact kept.map (kept.map kept.fixed64 _) _
  | uint64 => exact kept.map kept.varint _
  | _ => exact kept.map (kept.map kept.varint _) _

theorem signedLength (kept : KeptByReaders property) (type : Scalar) :
    property (Framing.readSignedLength type) := by
  cases type with
  | uint32 | int32 | int64 | sint32 | sint64 => exact kept.map (kept.map kept.varint _) _
  | uint64 => exact kept.map kept.varint _
  | fixed32 => exact kept.map kept.fixed32 _
  | fixed64 => exact kept.map kept.fixed64 _
  | sfixed32 => exact kept.map (kept.map kept.fixed32 _) _
  | sfixed64 => exact kept.map (kept.map kept.fixed64 _) _
  | bool | float | double | string | bytes => exact kept.failing _

/-- The length in front of a frame. -/
theorem length (kept : KeptByReaders property) (framing : Framing) :
    property framing.readLength := by
  cases framing with
  | fixed size => exact kept.returning size
  | prefixed type =>
      apply kept.sequence (kept.signedLength type)
      intro length
      by_cases negative : length < 0
      · simp only [negative, if_true]
        exact kept.failing _
      · simp only [negative, if_false]
        exact kept.returning _

end KeptByReaders

end Reader

end ProtoWire
