import ProtoWire.Proofs.Codec.Consumption
import ProtoWire.Proofs.Wire.Charging

/-!
Contract: decoding does not amplify. Every part of a decoded value, and every byte of its texts and
byte strings, is paid for by a byte of the input of its own, except for the root.

Owns:
- what a record adds to the weight of the fields;
- the payment for values of each kind of type, at every level of nesting;
- the bound on the size of a decoded value.

Does not own: how the weight of a value is counted.
-/

namespace ProtoWire

open Schema (totalSize)

/-! ### Fields -/

/-- What a record may add to the weight of the fields. -/
def Update.price : Update → Nat
  | .skip => 0
  | .set _ value => value.weight
  | .extend _ values => 1 + totalSize (values.map Value.weight)

theorem Update.weight_apply_le (fields : FieldMap Value) (update : Update) :
    FieldMap.weight (update.apply fields) ≤ FieldMap.weight fields + update.price := by
  cases update with
  | skip => exact Nat.le_refl _
  | set name value =>
      have exchanged := FieldMap.weight_insert fields name value
      show FieldMap.weight (FieldMap.insert fields name value) ≤
        FieldMap.weight fields + value.weight
      omega
  | extend name values => exact FieldMap.weight_extend_le fields name values

/-- Fields weigh no more than the records that they come from. -/
theorem Update.weight_foldl_le (updates : List Update) (fields : FieldMap Value) :
    FieldMap.weight (updates.foldl Update.apply fields) ≤
      FieldMap.weight fields + totalSize (updates.map Update.price) := by
  induction updates generalizing fields with
  | nil => exact Nat.le_refl _
  | cons update others inductionHypothesis =>
      have first := update.weight_apply_le fields
      have later := inductionHypothesis (update.apply fields)
      show FieldMap.weight (others.foldl Update.apply (update.apply fields)) ≤
        FieldMap.weight fields + (update.price + totalSize (others.map Update.price))
      omega

/-- A single value costs its weight, and one more for the array that it may begin. -/
theorem Field.price_update_le (field : Field) (value : Value) :
    (field.update value).price ≤ 1 + value.weight := by
  unfold Field.update
  by_cases repeated : field.isRepeated
  · rw [if_pos repeated]
    exact Nat.le_refl _
  · rw [if_neg repeated]
    exact Nat.le_add_left ..

/-! ### Self-delimiting values -/

private theorem yields_map_leaf
    {α : Type}
    {reader : Reader α}
    {kind : α → Value}
    (leaf : ∀ content, (kind content).IsLeaf)
    (plain : ∀ content, (kind content).ownBytes = 0) :
    (kind <$> reader).Yields fun value => value.weight ≤ 1 := by
  apply Reader.yields_map
  intro content
  have weight : (kind content).weight = 1 + 0 := by
    rw [Value.weight_leaf (leaf content), plain content]
  exact Nat.le_of_eq weight

/-- A number is paid for by the bytes that it takes. -/
theorem Scalar.pays_read_bare {type : Scalar} (bare : type.wireType ≠ .lengthDelimited) :
    type.read.Pays Value.weight 0 := by
  have light : type.read.Yields fun value => value.weight ≤ 1 := by
    cases type with
    | string => exact absurd rfl bare
    | bytes => exact absurd rfl bare
    | _ => exact yields_map_leaf (fun _ => by constructor <;> simp) fun _ => rfl
  exact ((type.isLocal_read bare).pays (type.needsBytes_read bare)).lower light

theorem EnumType.pays_read (enum : EnumType) (name : String) :
    (enum.read name).Pays Value.weight 0 := by
  rw [EnumType.read_eq]
  have isLocal : Reader.int32.IsLocal := Reader.isLocal_varint.map _
  have needs : Reader.int32.NeedsBytes := Reader.needsBytes_varint.map _
  apply ((isLocal.map _).pays (needs.map _)).lower
  refine yields_map_leaf (fun number => ?_) fun number => ?_
  · exact enum.isLeaf_valueOf name number
  · unfold EnumType.valueOf
    cases enum.nameOf? number <;> rfl

/-! ### Values -/

/-- A value of any scalar type, where text and byte strings take all bytes that are left. -/
theorem Scalar.pays_read (type : Scalar) : type.read.Pays Value.weight 1 := by
  by_cases bare : type.wireType ≠ .lengthDelimited
  · exact (Scalar.pays_read_bare bare).more (Nat.zero_le 1)
  · cases type with
    | string =>
        apply Reader.Pays.map
        exact (Reader.pays_restAsText.add 1).lower fun _ text _ _ =>
          Nat.le_of_eq (Value.weight_leaf (by constructor <;> simp))
    | bytes =>
        apply Reader.Pays.map
        exact (Reader.pays_rest.add 1).lower fun _ run _ _ =>
          Nat.le_of_eq (Value.weight_leaf (by constructor <;> simp))
    | _ => exact absurd (by decide) bare

/-- A payload in a frame pays for itself. -/
theorem Framing.pays_readPayload (framing : Framing) : framing.readPayload.Pays List.length 0 := by
  intro cursor payload after returned
  have paid : (framing.readLength >>= Reader.bytes).Pays List.length 0 :=
    framing.staysInside_readLength.pays.bind Reader.pays_bytes
  exact paid cursor payload after (Framing.readPayload_eq_ok.mp returned)

namespace Schema

variable {schema : Schema}

/-- A value that delimits itself is paid for by its own bytes. -/
theorem pays_readWithin_bare
    (levels : Nat)
    (type : TypeRef)
    (bare : schema.wireType type ≠ .lengthDelimited) :
    (schema.readWithin levels type).Pays Value.weight 0 := by
  cases type with
  | scalar type =>
      rw [readWithin_scalar]
      exact Scalar.pays_read_bare bare
  | definition index =>
      obtain ⟨name, enum, found⟩ := exists_enum_of_bare bare
      rw [readWithin_enum levels found]
      exact enum.pays_read name

section Records

variable
  {readValue : TypeRef → Reader Value}
  (pays : ∀ type, (readValue type).Pays Value.weight 1)
  (paysBare : ∀ type, schema.wireType type ≠ .lengthDelimited →
    (readValue type).Pays Value.weight 0)

include pays paysBare

/-- The key of a record, which stands in front, covers the array that a first element begins. -/
theorem pays_readField (messageName : String) (field : Field) (found : WireType) :
    (schema.readField readValue messageName field found).Pays Update.price 1 := by
  refine readField_cases (motive := fun _ reader => reader.Pays Update.price 1)
    ?run ?delimited ?bare ?mismatch found
  case run =>
    -- The length in front of a run pays for the array, and the run for its elements.
    intro _ bare
    apply (Reader.pays_lengthDelimited.more (Nat.zero_le 1)).bind
    intro run
    have elements := ((paysBare field.type bare).many.within run).add 1
    exact elements.bind fun values => Reader.pays_pure (Nat.le_refl _)
  case delimited =>
    intro _
    apply (Reader.pays_lengthDelimited.add 1).bind
    intro payload
    have content := ((pays field.type).within payload).add 1
    apply (content.more (by omega)).bind
    exact fun value => Reader.pays_pure (field.price_update_le value)
  case bare =>
    intro bare
    apply ((paysBare field.type bare).add 1).bind
    exact fun value => Reader.pays_pure (field.price_update_le value)
  case mismatch => exact fun _ _ _ => Reader.pays_throw _

theorem pays_readRecord (messageName : String) (message : MessageType) :
    (schema.readRecord readValue messageName message).Pays Update.price 0 := by
  apply Reader.pays_key.bind
  rintro ⟨tag, found⟩
  cases declared : message.fieldByTag? tag with
  | none =>
      simp only [declared]
      have pays := (Reader.keptByReaders_staysInside.skip found).pays.more (Nat.zero_le 1)
      exact pays.bind fun _ => Reader.pays_pure (Nat.le_refl 0)
  | some field =>
      simp only [declared]
      exact pays_readField pays paysBare messageName field found

/-- The records pay for all fields, so that only the object itself is left. -/
theorem pays_readMessage (messageName : String) (message : MessageType) :
    (schema.readMessage readValue messageName message).Pays Value.weight 1 := by
  apply ((pays_readRecord pays paysBare messageName message).many.add 1).bind
  intro updates
  apply Reader.pays_pure
  have fields := Update.weight_foldl_le updates []
  rw [FieldMap.weight_object]
  have nothing : FieldMap.weight [] = 0 := rfl
  omega

end Records

theorem pays_readFrames
    {readContent : Reader Value}
    (pays : readContent.Pays Value.weight 1)
    (frames : List Framing) :
    (readFrames readContent frames).Pays Value.weight 1 := by
  induction frames with
  | nil => exact pays
  | cons framing others inductionHypothesis =>
      apply (framing.pays_readPayload.add 1).bind
      intro payload
      exact (inductionHypothesis.within payload).more (by omega)

theorem pays_readLayers
    {readBody : String → MessageType → Reader Value}
    (pays : ∀ name message, (readBody name message).Pays Value.weight 1)
    (type : TypeRef) :
    (schema.readLayers readBody type).Pays Value.weight 1 := by
  intro cursor
  refine pays_readFrames ?_ _ cursor
  cases (schema.layersWithin (schema.frameLimit cursor type) type).core with
  | scalar type => exact type.pays_read
  | enum name enum =>
      exact (enum.pays_read name).more (Nat.zero_le 1)
  | message name message => exact pays name message
  | missing index => exact Reader.pays_throw _

/-- By induction on the levels of messages: each level pays for its own records. -/
theorem pays_readWithin (levels : Nat) (type : TypeRef) :
    (schema.readWithin levels type).Pays Value.weight 1 := by
  induction levels generalizing type with
  | zero => exact pays_readLayers (fun _ _ => Reader.pays_throw _) type
  | succ levels inductionHypothesis =>
      exact pays_readLayers (pays_readMessage inductionHypothesis (pays_readWithin_bare levels)) type

/-- Decoding does not amplify: a value has no more parts, and no more bytes in its texts and byte
strings, than one more than the bytes that it was read from. -/
theorem nodeCount_add_contentSize_le_of_read
    (schema : Schema)
    {type : TypeRef}
    {bytes : List UInt8}
    {value : Value}
    {after : Cursor}
    (returned : schema.read type (Cursor.ofBytes bytes) = .ok value after) :
    value.nodeCount + value.contentSize + after.remaining ≤ bytes.length + 1 := by
  have paid := pays_readWithin (maxDepth + 1) type (Cursor.ofBytes bytes) value after returned
  have length : (Cursor.ofBytes bytes).remaining = bytes.length := rfl
  rw [Value.weight_eq] at paid
  omega

/-- Letters and a drawer inside. -/
def deskSchema : Schema :=
  ⟨[⟨"Desk", .message
      ⟨[⟨"letters", 1, .scalar .bytes, .repeated, false⟩,
        ⟨"drawer", 2, .definition 0, .optional, false⟩], []⟩⟩]⟩

/-- One letter of one byte: an object, an array and a byte string from three bytes, so that no
better bound holds. -/
theorem read_desk :
    deskSchema.read (.definition 0) (Cursor.ofBytes [10, 1, 104]) =
      .ok (.object "Desk" [("letters", .array [.bytes [104]])]) ⟨3, []⟩ ∧
    (Value.object "Desk" [("letters", .array [.bytes [104]])]).nodeCount = 3 ∧
    (Value.object "Desk" [("letters", .array [.bytes [104]])]).contentSize = 1 ∧
    3 + 1 + 0 ≤ [10, 1, 104].length + 1 := by
  have returned : deskSchema.read (.definition 0) (Cursor.ofBytes [10, 1, 104]) =
      .ok (.object "Desk" [("letters", .array [.bytes [104]])]) ⟨3, []⟩ := rfl
  exact ⟨returned, rfl, rfl, deskSchema.nodeCount_add_contentSize_le_of_read returned⟩

end Schema

end ProtoWire
