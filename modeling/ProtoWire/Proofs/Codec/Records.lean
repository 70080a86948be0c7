import ProtoWire.Proofs.Codec.Reading
import ProtoWire.Proofs.Wire.Locality

/-!
Contract: a message is read record by record. The bytes of a record alone decide what it does to
the fields, so that messages stand one behind the other as their records do.

Owns:
- the readers of self-delimiting values and of records, for every property that readers keep;
- their locality;
- the decoding of a message as a run of records.

Does not own: which values are written as which records.
-/

namespace ProtoWire

/-! ### Parts of a record -/

namespace Reader.KeptByReaders

variable {schema : Schema} {property : {α : Type} → Reader α → Prop}

theorem enum (kept : KeptByReaders property) (name : String) (enum : EnumType) :
    property (enum.read name) := by
  rw [EnumType.read_eq]
  exact kept.map (kept.map kept.varint _) _

/-- Values that delimit themselves. -/
theorem value
    (kept : KeptByReaders property)
    (levels : Nat)
    {type : TypeRef}
    (bare : schema.wireType type ≠ .lengthDelimited) :
    property (schema.readWithin levels type) := by
  cases type with
  | scalar type =>
      rw [Schema.readWithin_scalar]
      exact kept.scalar bare
  | definition index =>
      obtain ⟨name, enum, found⟩ := Schema.exists_enum_of_bare bare
      rw [Schema.readWithin_enum levels found]
      exact kept.enum name enum

/-- Values with a length in front may be read in any way, since they are read from a region. -/
theorem field
    (kept : KeptByReaders property)
    {readValue : TypeRef → Reader Value}
    (values : ∀ type, schema.wireType type ≠ .lengthDelimited → property (readValue type))
    (messageName : String)
    (field : Field)
    (found : WireType) :
    property (schema.readField readValue messageName field found) := by
  refine Schema.readField_cases (motive := fun _ reader => property reader)
    ?run ?delimited ?bare ?mismatch found
  case run =>
    intro _ _
    apply kept.sequence kept.lengthDelimited
    intro run
    exact kept.sequence (kept.within run _) fun values => kept.returning _
  case delimited =>
    intro _
    apply kept.sequence kept.lengthDelimited
    intro payload
    exact kept.sequence (kept.within payload _) fun value => kept.returning _
  case bare =>
    exact fun bare => kept.sequence (values field.type bare) fun value => kept.returning _
  case mismatch => exact fun _ _ _ => kept.failing _

theorem record
    (kept : KeptByReaders property)
    (levels : Nat)
    (messageName : String)
    (message : MessageType) :
    property (schema.readRecord (schema.readWithin levels) messageName message) := by
  apply kept.sequence kept.key
  rintro ⟨tag, found⟩
  cases declared : message.fieldByTag? tag with
  | none =>
      simp only [declared]
      exact kept.sequence (kept.skip found) fun _ => kept.returning _
  | some field =>
      simp only [declared]
      exact kept.field (fun type bare => kept.value levels bare) messageName field found

end Reader.KeptByReaders

namespace Schema

variable {schema : Schema}

/-! ### Locality -/

theorem isLocal_readWithin
    (levels : Nat)
    (type : TypeRef)
    (bare : schema.wireType type ≠ .lengthDelimited) :
    (schema.readWithin levels type).IsLocal :=
  Reader.keptByReaders_isLocal.value levels bare

theorem isLocal_readRecord (levels : Nat) (messageName : String) (message : MessageType) :
    (schema.readRecord (schema.readWithin levels) messageName message).IsLocal :=
  Reader.keptByReaders_isLocal.record levels messageName message

theorem needsBytes_readRecord
    (readValue : TypeRef → Reader Value)
    (messageName : String)
    (message : MessageType) :
    (schema.readRecord readValue messageName message).NeedsBytes :=
  Reader.needsBytes_key.bind

/-! ### Messages -/

/-- Bytes are decoded as a message exactly when they can be cut into records. The records change
the fields one after the other, and all bytes are taken. -/
theorem decode_message_eq_ok
    {name messageName : String}
    {index : Nat}
    {message : MessageType}
    (resolved : schema.resolve name = .ok (.definition index))
    (found : schema.definition? index = some ⟨messageName, .message message⟩)
    {bytes : List UInt8}
    {value : Value}
    {consumed : Nat} :
    schema.decode name bytes = .ok (value, consumed) ↔
      ∃ updates,
        (schema.readRecord (schema.readWithin maxDepth) messageName message).ReadsPieces bytes
            updates ∧
          value = .object messageName (updates.foldl Update.apply []) ∧
            consumed = bytes.length := by
  have body : schema.read (.definition index) =
      schema.readMessage (schema.readWithin maxDepth) messageName message :=
    readWithin_message (maxDepth + 1) found
  have isLocal : (schema.readRecord (schema.readWithin maxDepth) messageName message).IsLocal :=
    isLocal_readRecord maxDepth messageName message
  have pieces {updates : List Update} {after : Cursor} :
      Reader.many (schema.readRecord (schema.readWithin maxDepth) messageName message)
          (Cursor.ofBytes bytes) = .ok updates after ↔ _ :=
    Reader.many_eq_ok isLocal (needsBytes_readRecord _ _ _)
  rw [decode_eq_ok resolved, body]
  constructor
  · rintro ⟨cursor, returned, rfl⟩
    obtain ⟨updates, middle, run, ⟨⟩⟩ := Reader.bind_eq_ok.mp returned
    obtain ⟨cut, rfl⟩ := pieces.mp run
    exact ⟨updates, cut, rfl, Nat.zero_add bytes.length⟩
  · rintro ⟨updates, cut, rfl, rfl⟩
    have run := pieces.mpr ⟨cut, rfl⟩
    exact ⟨_, Reader.bind_eq_ok.mpr ⟨updates, _, run, rfl⟩, Nat.zero_add bytes.length⟩

end Schema

end ProtoWire
