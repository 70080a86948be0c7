import ProtoWire.Proofs.Codec.Canonical
import ProtoWire.Proofs.Codec.TwoPass
import ProtoWire.Proofs.Schema.WellFormed
import ProtoWire.Proofs.Value.Nesting

/-!
Contract: what was written is read back, as the canonical form of the value that was written.

Owns:
- the round trip of records, runs, fields and messages;
- the round trip of every type, as deep as the reader follows messages.

Does not own: values that were not written by this library.
-/

namespace ProtoWire

open Outcome

/-- A number of an enum is read back as the first name of this number. -/
theorem EnumType.reads_valueOf (name : String) (enum : EnumType) (number : Int32) :
    (enum.read name).Reads (Word.int32 number) (enum.valueOf name number) := by
  rw [EnumType.read_eq]
  exact (Reader.reads_int32 number).map (enum.valueOf name)

theorem Varint.encode_ne_nil (number : Nat) : Varint.encode number ≠ [] := by
  unfold Varint.encode
  split <;> exact List.cons_ne_nil _ _

theorem Key.encode_ne_nil (tag : Nat) (wireType : WireType) : Key.encode tag wireType ≠ [] :=
  Varint.encode_ne_nil _

theorem LittleEndian.encode_ne_nil (count number : Nat) :
    LittleEndian.encode (count + 1) number ≠ [] := by
  intro empty
  have length := LittleEndian.length_encode (count + 1) number
  rw [empty] at length
  cases length

theorem Scalar.encode_ne_nil
    {scalar : Scalar}
    {value : Value}
    {bytes : List UInt8}
    (written : scalar.encode value = .ok bytes)
    (bare : scalar.wireType ≠ .lengthDelimited) :
    bytes ≠ [] := by
  unfold encode at written
  split at written <;> cases written
  case h_14 => exact absurd rfl bare
  case h_15 => exact absurd rfl bare
  case h_7 => exact List.cons_ne_nil _ _
  all_goals
    first
    | exact Varint.encode_ne_nil _
    | exact LittleEndian.encode_ne_nil _ _

namespace Schema

variable {schema : Schema}

/-- What a value writes is read back as its canonical form, up to a depth of messages. Values that
delimit themselves are read back whatever follows them. -/
structure ReadsBack (schema : Schema) (levels : Nat) (type : TypeRef) (value : Value) : Prop where
  exhausts : ∀ payload, schema.emit type value = .ofBytes payload →
    payload.length < UInt64.size → (schema.canonical type value).nesting ≤ levels →
      (schema.readWithin levels type).Exhausts payload (schema.canonical type value)
  reads : ∀ payload, schema.emit type value = .ofBytes payload →
    schema.wireType type ≠ .lengthDelimited →
      payload ≠ [] ∧
        (schema.readWithin levels type).Reads payload (schema.canonical type value)

/-! ### Scalars and enums -/

private theorem readsBack_scalar (levels : Nat) (type : Scalar) (value : Value) :
    schema.ReadsBack levels (.scalar type) value := by
  constructor
  · intro payload written _ _
    rw [emit_scalar, Emission.ofExcept_eq_ofBytes] at written
    rw [readWithin_scalar, canonical_scalar written]
    exact Scalar.exhausts_of_encode written
  · intro payload written bare
    rw [emit_scalar, Emission.ofExcept_eq_ofBytes] at written
    rw [readWithin_scalar, canonical_scalar written]
    exact ⟨Scalar.encode_ne_nil written bare, Scalar.reads_of_encode written bare⟩

private theorem readsBack_enum
    {index : Nat}
    {name : String}
    {enum : EnumType}
    (levels : Nat)
    (found : schema.definition? index = some ⟨name, .enum enum⟩)
    (value : Value) :
    schema.ReadsBack levels (.definition index) value := by
  have back {payload : List UInt8}
      (written : schema.emit (.definition index) value = .ofBytes payload) :
      payload ≠ [] ∧
        (schema.readWithin levels (.definition index)).Reads payload
          (schema.canonical (.definition index) value) := by
    obtain ⟨number, numbered, rfl⟩ := (emit_enum_eq_ofBytes found).mp written
    rw [readWithin_enum levels found, canonical_enum found numbered]
    exact ⟨Varint.encode_ne_nil _, enum.reads_valueOf name number⟩
  exact ⟨fun payload written _ _ => (back written).2.exhausts, fun payload written _ => back written⟩

/-! ### Records -/

section Records

variable
  {levels : Nat}
  {messageName : String}
  {message : MessageType}
  {field : Field}

/-- A record of a declared field is read by its key. -/
theorem reads_keyed
    (legal : message.WellFormed schema)
    (member : field ∈ message.fields)
    {found : WireType}
    {payload : List UInt8}
    {update : Update}
    (reads :
      (schema.readField (schema.readWithin levels) messageName field found).Reads payload update) :
    (schema.readRecord (schema.readWithin levels) messageName message).Reads
      (Key.encode field.tag found ++ payload) update := by
  have rules := legal.fields field member
  apply (Reader.reads_key found rules.positive rules.bounded).bind
  simp only [MessageType.fieldByTag?_of_mem legal.tags member]
  exact reads

/-- What is written for one value of a field is one record. -/
theorem reads_record
    (wellFormed : schema.WellFormed)
    (legal : message.WellFormed schema)
    (member : field ∈ message.fields)
    {value : Value}
    (back : schema.ReadsBack levels field.type value)
    {bytes : List UInt8}
    (written : schema.emitRecord schema.size schema.emit field value = .ofBytes bytes)
    (fits : bytes.length < UInt64.size)
    (shallow : (schema.canonical field.type value).nesting ≤ levels) :
    bytes ≠ [] ∧
      (schema.readRecord (schema.readWithin levels) messageName message).Reads bytes
        (field.update (schema.canonical field.type value)) := by
  by_cases delimited : schema.wireType field.type = .lengthDelimited
  · obtain ⟨payload, content, rfl⟩ := (emitRecord_delimited wellFormed.frames delimited).mp written
    refine ⟨List.append_ne_nil_of_left_ne_nil (Key.encode_ne_nil _ _) _, ?_⟩
    apply reads_keyed legal member
    have short : payload.length < UInt64.size := by
      simp only [Word.lengthDelimited, List.length_append] at fits
      omega
    rw [readField_delimited delimited, ← List.append_nil (Word.lengthDelimited payload)]
    apply (Reader.reads_lengthDelimited short).bind
    exact (Reader.reads_within (back.exhausts payload content short shallow)).map field.update
  · obtain ⟨payload, content, rfl⟩ := (emitRecord_bare delimited).mp written
    refine ⟨List.append_ne_nil_of_left_ne_nil (Key.encode_ne_nil _ _) _, ?_⟩
    apply reads_keyed legal member
    rw [readField_bare delimited]
    exact (back.reads payload content delimited).2.map field.update

/-- If what each item writes is read as a value, what the items write one behind the other is read
as these values. -/
private theorem readsPieces_concat
    {α β : Type}
    {reader : Reader β}
    {emitItem : α → Emission}
    {result : α → β}
    {items : List α}
    {bytes : List UInt8}
    (each : ∀ item ∈ items, ∀ piece, emitItem item = .ofBytes piece →
      piece.length ≤ bytes.length → piece ≠ [] ∧ reader.Reads piece (result item))
    (written : Emission.concat (items.map emitItem) = .ofBytes bytes) :
    reader.ReadsPieces bytes (items.map result) := by
  induction items generalizing bytes with
  | nil =>
      obtain rfl : [] = bytes := Emission.ofBytes_inj.mp written
      exact .nil
  | cons item others inductionHypothesis =>
      rw [List.map_cons, Emission.concat_cons, Emission.append_eq_ofBytes] at written
      obtain ⟨front, rest, first, later, rfl⟩ := written
      rw [List.length_append] at each
      obtain ⟨nonempty, reads⟩ := each item List.mem_cons_self front first (Nat.le_add_right ..)
      apply Reader.ReadsPieces.cons reads nonempty
      refine inductionHypothesis (fun other member piece content bound => ?_) later
      exact each other (List.mem_cons_of_mem item member) piece content
        (Nat.le_trans bound (Nat.le_add_left ..))

private theorem readsPieces_records
    (wellFormed : schema.WellFormed)
    (legal : message.WellFormed schema)
    (member : field ∈ message.fields)
    {values : List Value}
    (back : ∀ value, schema.ReadsBack levels field.type value)
    {bytes : List UInt8}
    (written : Emission.concat
      (values.map (schema.emitRecord schema.size schema.emit field)) = .ofBytes bytes)
    (fits : bytes.length < UInt64.size)
    (shallow : ∀ value ∈ values, (schema.canonical field.type value).nesting ≤ levels) :
    (schema.readRecord (schema.readWithin levels) messageName message).ReadsPieces bytes
      (values.map fun value => field.update (schema.canonical field.type value)) := by
  refine readsPieces_concat (fun value inside piece content bound => ?_) written
  exact reads_record wellFormed legal member (back value) content (Nat.lt_of_le_of_lt bound fits)
    (shallow value inside)

private theorem reads_run
    (wellFormed : schema.WellFormed)
    (legal : message.WellFormed schema)
    (member : field ∈ message.fields)
    {values : List Value}
    (back : ∀ value, schema.ReadsBack levels field.type value)
    (repeated : field.isRepeated = true)
    (bare : schema.wireType field.type ≠ .lengthDelimited)
    {fields : FieldMap Value}
    (occurs : schema.occurrence messageName fields field = .ok (.run values))
    {bytes : List UInt8}
    (written :
      schema.emitField schema.size schema.emit messageName fields field = .ofBytes bytes)
    (fits : bytes.length < UInt64.size) :
    bytes ≠ [] ∧
      (schema.readRecord (schema.readWithin levels) messageName message).Reads bytes
        (.extend field.name (values.map (schema.canonical field.type))) := by
  obtain ⟨run, content, rfl⟩ := (emitField_run wellFormed.frames occurs).mp written
  refine ⟨List.append_ne_nil_of_left_ne_nil (Key.encode_ne_nil _ _) _, ?_⟩
  apply reads_keyed legal member
  have short : run.length < UInt64.size := by
    simp only [Word.lengthDelimited, List.length_append] at fits
    omega
  have pieces : (schema.readWithin levels field.type).ReadsPieces run
      (values.map (schema.canonical field.type)) :=
    readsPieces_concat (fun value _ piece written _ => (back value).reads piece written bare) content
  have elements := pieces.many_exhausts
  rw [readField_run repeated bare, ← List.append_nil (Word.lengthDelimited run)]
  apply (Reader.reads_lengthDelimited short).bind
  exact (Reader.reads_within elements).map (Update.extend field.name)

/-! ### Fields -/

/-- Values that are added to a field one by one stand behind those that it had. -/
private theorem foldl_extend_last
    {name : String}
    {fields : FieldMap Value}
    (fresh : name ∉ FieldMap.keys fields)
    (before values : List Value) :
    (values.map fun value => Update.extend name [value]).foldl Update.apply
        (fields ++ [(name, .array before)]) =
      fields ++ [(name, .array (before ++ values))] := by
  induction values generalizing before with
  | nil => rw [List.map_nil, List.foldl_nil, List.append_nil]
  | cons value others inductionHypothesis =>
      rw [List.map_cons, List.foldl_cons, Update.apply, FieldMap.extend_last fresh,
        inductionHypothesis, List.append_assoc, List.singleton_append]

private theorem foldl_extend
    {name : String}
    {fields : FieldMap Value}
    (fresh : name ∉ FieldMap.keys fields)
    {values : List Value}
    (nonempty : values ≠ []) :
    (values.map fun value => Update.extend name [value]).foldl Update.apply fields =
      fields ++ [(name, .array values)] := by
  cases values with
  | nil => exact absurd rfl nonempty
  | cons value others =>
      rw [List.map_cons, List.foldl_cons, Update.apply, FieldMap.extend_of_not_mem fresh,
        foldl_extend_last fresh, List.singleton_append]

/-- The records of a repeated field leave its array. -/
private theorem foldl_update
    {field : Field}
    (repeated : field.isRepeated = true)
    {fields : FieldMap Value}
    (fresh : field.name ∉ FieldMap.keys fields)
    {values : List Value}
    (nonempty : values ≠ [])
    (image : Value → Value) :
    (values.map fun value => field.update (image value)).foldl Update.apply fields =
      fields ++ [(field.name, .array (values.map image))] := by
  have updates : (values.map fun value => field.update (image value)) =
      (values.map image).map fun value => Update.extend field.name [value] := by
    rw [List.map_map]
    apply List.map_congr_left
    intro value _
    rw [Field.update, repeated]
    rfl
  have elements : values.map image ≠ [] := fun empty => nonempty (List.map_eq_nil_iff.mp empty)
  rw [updates, foldl_extend fresh elements]

/-- What is written for a field is read as updates that add its entry. -/
theorem readsPieces_field
    (wellFormed : schema.WellFormed)
    (legal : message.WellFormed schema)
    (member : field ∈ message.fields)
    (back : ∀ value, schema.ReadsBack levels field.type value)
    {fields : FieldMap Value}
    {bytes : List UInt8}
    (written :
      schema.emitField schema.size schema.emit messageName fields field = .ofBytes bytes)
    (fits : bytes.length < UInt64.size)
    (shallow : ∀ name content,
      field.entry? (schema.canonicalFields message fields) = some (name, content) →
        content.nesting ≤ levels) :
    ∃ updates,
      (schema.readRecord (schema.readWithin levels) messageName message).ReadsPieces bytes
          updates ∧
        ∀ before, field.name ∉ FieldMap.keys before →
          updates.foldl Update.apply before =
            before ++ (field.entry? (schema.canonicalFields message fields)).toList := by
  cases occurs : schema.occurrence messageName fields field with
  | error cause =>
      rw [emitField_of_error occurs] at written
      cases congrArg Emission.failure written
  | ok occurrence =>
      have named := MessageType.fieldByName?_of_mem legal.names member
      cases occurs_of_occurrence named occurs with
      | nothing _ absent =>
          rw [emitField_of_nothing occurs] at written
          obtain rfl : [] = bytes := Emission.ofBytes_inj.mp written
          refine ⟨[], .nil, ?_⟩
          intro before _
          rw [absent, List.foldl_nil, Option.toList_none, List.append_nil]
      | @single value singular present =>
          rw [emitField_of_records occurs] at written
          refine ⟨_, readsPieces_records wellFormed legal member back written fits ?_, ?_⟩
          · intro other inside
            obtain rfl := List.mem_singleton.mp inside
            exact shallow _ _ present
          · intro before fresh
            rw [present, List.map_singleton, List.foldl_cons, List.foldl_nil, Field.update,
              singular]
            exact FieldMap.insert_of_not_mem fresh
      | @records values repeated _ nonempty present =>
          have bound := shallow _ _ present
          rw [emitField_of_records occurs] at written
          refine ⟨_, readsPieces_records wellFormed legal member back written fits ?_, ?_⟩
          · intro value inside
            rw [Value.nesting] at bound
            exact Nat.le_trans
              (Value.nesting_le_of_mem_elements (List.mem_map_of_mem inside)) bound
          · intro before fresh
            rw [foldl_update repeated fresh nonempty, present]
            rfl
      | run repeated packed nonempty present =>
          have bare : schema.wireType field.type ≠ .lengthDelimited :=
            bne_iff_ne.mp (Bool.and_eq_true_iff.mp packed).2
          obtain ⟨filled, reads⟩ :=
            reads_run wellFormed legal member back repeated bare occurs written fits
          refine ⟨_, .singleton reads filled, ?_⟩
          intro before fresh
          rw [List.foldl_cons, List.foldl_nil, Update.apply, FieldMap.extend_of_not_mem fresh,
            present]
          rfl

/-- What is written for several fields is read as updates that add their entries. -/
private theorem readsPieces_fields
    (wellFormed : schema.WellFormed)
    (legal : message.WellFormed schema)
    (back : ∀ field ∈ message.fields, ∀ value, schema.ReadsBack levels field.type value)
    {fields : FieldMap Value}
    {pending : List Field}
    (declared : ∀ field ∈ pending, field ∈ message.fields)
    (distinct : (pending.map Field.name).Nodup)
    {bytes : List UInt8}
    (written : Emission.concat
      (pending.map (schema.emitField schema.size schema.emit messageName fields)) =
        .ofBytes bytes)
    (fits : bytes.length < UInt64.size)
    (shallow : ∀ field ∈ pending, ∀ name content,
      field.entry? (schema.canonicalFields message fields) = some (name, content) →
        content.nesting ≤ levels) :
    ∃ updates,
      (schema.readRecord (schema.readWithin levels) messageName message).ReadsPieces bytes
          updates ∧
        ∀ before, (∀ field ∈ pending, field.name ∉ FieldMap.keys before) →
          updates.foldl Update.apply before =
            before ++ pending.filterMap (Field.entry? (schema.canonicalFields message fields)) := by
  induction pending generalizing bytes with
  | nil =>
      obtain rfl : [] = bytes := Emission.ofBytes_inj.mp written
      exact ⟨[], .nil, fun before _ => (List.append_nil before).symm⟩
  | cons field others inductionHypothesis =>
      rw [List.map_cons, Emission.concat_cons, Emission.append_eq_ofBytes] at written
      obtain ⟨front, rest, first, later, rfl⟩ := written
      rw [List.length_append] at fits
      rw [List.map_cons, List.nodup_cons] at distinct
      have member := declared field List.mem_cons_self
      obtain ⟨updates, pieces, effect⟩ :=
        readsPieces_field wellFormed legal member (back field member) first (by omega)
          (shallow field List.mem_cons_self)
      obtain ⟨moreUpdates, morePieces, moreEffect⟩ :=
        inductionHypothesis (fun other inside => declared other (List.mem_cons_of_mem field inside))
          distinct.2 later (by omega)
          (fun other inside => shallow other (List.mem_cons_of_mem field inside))
      refine ⟨updates ++ moreUpdates, pieces.append morePieces, ?_⟩
      intro before fresh
      rw [List.foldl_append, effect before (fresh field List.mem_cons_self), moreEffect,
        List.append_assoc, List.filterMap_cons]
      · cases field.entry? (schema.canonicalFields message fields) <;> rfl
      · intro other inside present
        rw [FieldMap.keys, List.map_append, List.mem_append] at present
        rcases present with old | new
        · exact fresh other (List.mem_cons_of_mem field inside) old
        · obtain ⟨⟨name, content⟩, kept, same⟩ := List.mem_map.mp new
          have key := Field.entry?_name (Option.mem_toList.mp kept)
          have equal : other.name = field.name := same.symm.trans key
          exact distinct.1 (equal ▸ List.mem_map_of_mem inside)

end Records

/-! ### Messages and frames -/

private theorem readsBack_message
    (wellFormed : schema.WellFormed)
    {levels index : Nat}
    {name : String}
    {message : MessageType}
    (found : schema.definition? index = some ⟨name, .message message⟩)
    (back : ∀ fewer, levels = fewer + 1 → ∀ type value, schema.ReadsBack fewer type value)
    (value : Value) :
    schema.ReadsBack levels (.definition index) value := by
  have legal := wellFormed.messages name message (mem_of_definition? found)
  constructor
  · intro payload written fits shallow
    obtain ⟨typeName, fields, rfl⟩ := isObject_of_emit found written
    rw [canonical_message found] at shallow ⊢
    rw [Value.nesting] at shallow
    obtain ⟨fewer, rfl⟩ : ∃ fewer, levels = fewer + 1 := ⟨levels - 1, by omega⟩
    rw [emit_message found] at written
    obtain ⟨updates, pieces, effect⟩ :=
      readsPieces_fields wellFormed legal (fun _ _ => back fewer rfl _)
        (fun _ member => member) legal.names written fits (by
          intro field member entryName content kept
          have inside : (entryName, content) ∈
              message.arrange (schema.canonicalFields message fields) :=
            List.mem_filterMap.mpr ⟨field, member, kept⟩
          have bound := Value.nesting_le_of_mem_fields inside
          omega)
    have result := effect [] fun _ _ => List.not_mem_nil
    rw [List.nil_append] at result
    have reads := pieces.many_exhausts.map fun updates =>
      Value.object name (updates.foldl Update.apply [])
    rw [result] at reads
    rw [readWithin_message (fewer + 1) found]
    exact reads
  · intro payload _ bare
    rw [wireType, found] at bare
    exact absurd rfl bare

/-- A frame is read back from its first to its last byte, whatever follows it. -/
theorem reads_framed
    (sound : schema.HasSoundFrames)
    {levels index : Nat}
    {name : String}
    {type : FramedType}
    (found : schema.definition? index = some ⟨name, .framed type⟩)
    {value : Value}
    (back : schema.ReadsBack levels (.definition type.inner) value)
    {bytes : List UInt8}
    (written : schema.emit (.definition index) value = .ofBytes bytes)
    (fits : bytes.length < UInt64.size)
    (shallow : (schema.canonical (.definition index) value).nesting ≤ levels) :
    (schema.readWithin levels (.definition index)).Reads bytes
      (schema.canonical (.definition index) value) := by
  obtain ⟨framing, innerName, message, inner⟩ := sound _ (mem_of_definition? found) type rfl
  obtain ⟨payload, content, checked, rfl⟩ := (emit_framed sound found).mp written
  obtain ⟨typeName, fields, rfl⟩ := isObject_of_emit inner content
  rw [List.length_append] at fits
  rw [canonical_framed sound found] at shallow ⊢
  rw [readWithin_framed sound levels found, ← List.append_nil (_ ++ payload)]
  apply (Framing.reads_payload framing checked).bind
  exact Reader.reads_within (back.exhausts payload content (by omega) shallow)

/-- What a value of any type writes is read back as its canonical form, if the reader follows
messages as deep as they nest. -/
theorem readsBack (wellFormed : schema.WellFormed) (levels : Nat) (type : TypeRef) (value : Value) :
    schema.ReadsBack levels type value := by
  induction levels using Nat.strongRecOn generalizing type value with
  | _ levels inductionHypothesis =>
      have back (fewer : Nat) (same : levels = fewer + 1) (type : TypeRef) (value : Value) :
          schema.ReadsBack fewer type value :=
        inductionHypothesis fewer (by omega) type value
      cases type with
      | scalar type => exact readsBack_scalar levels type value
      | definition index =>
          rcases found : schema.definition? index with _ | ⟨name, message | enum | framed⟩
          · constructor
            · intro payload written
              rw [emit_missing found] at written
              cases congrArg Emission.failure written
            · intro payload written
              rw [emit_missing found] at written
              cases congrArg Emission.failure written
          · exact readsBack_message wellFormed found back value
          · exact readsBack_enum levels found value
          · -- A frame takes up no level, so that the message inside of it is read at this level.
            obtain ⟨-, innerName, message, inner⟩ :=
              wellFormed.frames _ (mem_of_definition? found) framed rfl
            have innerBack := readsBack_message wellFormed inner back value
            constructor
            · intro payload written fits shallow
              exact (reads_framed wellFormed.frames found innerBack written fits shallow).exhausts
            · intro payload _ bare
              rw [wireType, found] at bare
              exact absurd rfl bare

/-- Decoding what was encoded gives the canonical form, and takes all bytes. -/
theorem WellFormed.decode_encode
    (wellFormed : schema.WellFormed)
    {name : String}
    {type : TypeRef}
    {value : Value}
    {bytes : List UInt8}
    (resolved : schema.resolve name = .ok type)
    (encoded : schema.encode name value = .ok bytes)
    (fits : bytes.length < UInt64.size)
    (shallow : (schema.canonical type value).nesting ≤ maxDepth + 1) :
    schema.decode name bytes = .ok (schema.canonical type value, bytes.length) := by
  rw [encode_eq wellFormed.frames resolved, Emission.toExcept_eq_ok] at encoded
  have reads := (readsBack wellFormed (maxDepth + 1) type value).exhausts bytes encoded fits shallow
  exact (decode_eq_ok resolved).mpr ⟨_, reads 0, Nat.zero_add bytes.length⟩

end Schema

end ProtoWire
