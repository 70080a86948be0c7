import ProtoWire.Proofs.Codec.Completeness
import ProtoWire.Proofs.Codec.RoundTrip

/-!
Contract: writing what was read. The canonical form of a value is written as the value itself, and
the canonical form of an admitted value differs from it in empty arrays and the order of fields
only.

Owns:
- the bytes of canonical forms;
- canonical forms of admitted values.

Does not own: which values can be written.
-/

namespace ProtoWire

/-! ### The bytes of canonical forms -/

private theorem get?_entries_absent
    {declared : List Field}
    {name : String}
    (absent : name ∉ declared.map Field.name)
    (fields : FieldMap Value) :
    FieldMap.get? (declared.filterMap (Field.entry? fields)) name = none := by
  rw [FieldMap.get?_eq_none]
  intro present
  obtain ⟨⟨key, content⟩, inside, rfl⟩ := List.mem_map.mp present
  obtain ⟨field, member, kept⟩ := List.mem_filterMap.mp inside
  exact absent (List.mem_map.mpr ⟨field, member, (Field.entry?_name kept).symm⟩)

private theorem get?_entries
    {declared : List Field}
    (names : (declared.map Field.name).Nodup)
    {field : Field}
    (member : field ∈ declared)
    (fields : FieldMap Value) :
    FieldMap.get? (declared.filterMap (Field.entry? fields)) field.name =
      (field.entry? fields).map Prod.snd := by
  induction declared with
  | nil => cases member
  | cons first others inductionHypothesis =>
      rw [List.map_cons, List.nodup_cons] at names
      rw [List.filterMap_cons]
      rcases List.mem_cons.mp member with rfl | later
      · have absent := get?_entries_absent names.1 fields
        cases kept : field.entry? fields with
        | none => exact absent
        | some entry =>
            obtain ⟨key, content⟩ := entry
            obtain rfl := Field.entry?_name kept
            rw [FieldMap.get?, if_pos rfl]
            rfl
      · have rest := inductionHypothesis names.2 later
        have different : first.name ≠ field.name := fun same =>
          names.1 (same ▸ List.mem_map_of_mem later)
        cases kept : first.entry? fields with
        | none => exact rest
        | some entry =>
            obtain ⟨key, content⟩ := entry
            obtain rfl := Field.entry?_name kept
            rw [FieldMap.get?, if_neg different]
            exact rest

/-- In arranged fields, a declared field has the entry that was kept of it. -/
theorem MessageType.get?_arrange
    {message : MessageType}
    (names : (message.fields.map Field.name).Nodup)
    {field : Field}
    (member : field ∈ message.fields)
    (fields : FieldMap Value) :
    FieldMap.get? (message.arrange fields) field.name = (field.entry? fields).map Prod.snd :=
  get?_entries names member fields

/-- If every part of a sequence is written like its counterpart, so is the sequence. -/
theorem Emission.concat_map_transfer
    {α : Type}
    {first second : α → Emission}
    {items : List α}
    (same : ∀ item ∈ items, ∀ piece, first item = .ofBytes piece → second item = .ofBytes piece)
    {bytes : List UInt8}
    (written : concat (items.map first) = .ofBytes bytes) :
    concat (items.map second) = .ofBytes bytes := by
  induction items generalizing bytes with
  | nil => exact written
  | cons item others inductionHypothesis =>
      rw [List.map_cons, concat_cons, append_eq_ofBytes] at written ⊢
      obtain ⟨front, back, one, rest, rfl⟩ := written
      refine ⟨front, back, same item List.mem_cons_self front one, ?_, rfl⟩
      exact inductionHypothesis
        (fun other member => same other (List.mem_cons_of_mem item member)) rest

/-- The same occurrence with other values. -/
def Occurrence.map (f : Value → Value) : Occurrence → Occurrence
  | .nothing => .nothing
  | .records values => .records (values.map f)
  | .run values => .run (values.map f)

namespace Schema

variable {schema : Schema}

/-- A field occurs in the canonical form as it occurs in the value. -/
theorem occurrence_canonical
    {message : MessageType}
    (names : (message.fields.map Field.name).Nodup)
    {field : Field}
    (member : field ∈ message.fields)
    {messageName : String}
    {fields : FieldMap Value}
    {occurrence : Occurrence}
    (occurs : schema.occurrence messageName fields field = .ok occurrence) :
    schema.occurrence messageName (message.arrange (schema.canonicalFields message fields)) field =
      .ok (occurrence.map (schema.canonical field.type)) := by
  have entry := MessageType.get?_arrange names member (schema.canonicalFields message fields)
  unfold Schema.occurrence
  cases occurs_of_occurrence (MessageType.fieldByName?_of_mem names member) occurs with
  | nothing optional absent =>
      rw [entry, absent]
      simp [optional, Occurrence.map]
  | single singular present =>
      rw [entry, present]
      simp [singular, Occurrence.map]
  | @records values repeated unpacked nonempty present =>
      rw [entry, present]
      cases values with
      | nil => exact absurd rfl nonempty
      | cons first others => simp [repeated, unpacked, Occurrence.map]
  | @run values repeated packed nonempty present =>
      rw [entry, present]
      cases values with
      | nil => exact absurd rfl nonempty
      | cons first others => simp [repeated, packed, Occurrence.map]

private theorem emitRecord_canonical
    (sound : schema.HasSoundFrames)
    {field : Field}
    {value : Value}
    (same : ∀ payload, schema.emit field.type value = .ofBytes payload →
      schema.emit field.type (schema.canonical field.type value) = .ofBytes payload)
    {bytes : List UInt8}
    (written : schema.emitRecord schema.size schema.emit field value = .ofBytes bytes) :
    schema.emitRecord schema.size schema.emit field (schema.canonical field.type value) =
      .ofBytes bytes := by
  by_cases delimited : schema.wireType field.type = .lengthDelimited
  · obtain ⟨payload, content, rfl⟩ := (emitRecord_delimited sound delimited).mp written
    exact (emitRecord_delimited sound delimited).mpr ⟨payload, same payload content, rfl⟩
  · obtain ⟨payload, content, rfl⟩ := (emitRecord_bare delimited).mp written
    exact (emitRecord_bare delimited).mpr ⟨payload, same payload content, rfl⟩

private theorem emitField_canonical
    (sound : schema.HasSoundFrames)
    {message : MessageType}
    (names : (message.fields.map Field.name).Nodup)
    {field : Field}
    (member : field ∈ message.fields)
    {messageName : String}
    {fields : FieldMap Value}
    (same : ∀ type content, content.height ≤ Value.heightOfFields fields →
      ∀ payload, schema.emit type content = .ofBytes payload →
        schema.emit type (schema.canonical type content) = .ofBytes payload)
    {bytes : List UInt8}
    (written :
      schema.emitField schema.size schema.emit messageName fields field = .ofBytes bytes) :
    schema.emitField schema.size schema.emit messageName
        (message.arrange (schema.canonicalFields message fields)) field =
      .ofBytes bytes := by
  cases occurs : schema.occurrence messageName fields field with
  | error cause =>
      rw [emitField_of_error occurs] at written
      cases congrArg Emission.failure written
  | ok occurrence =>
      have lower := occurrence_values_height occurs
      have canonical := occurrence_canonical names member occurs
      cases occurrence with
      | nothing =>
          rw [emitField_of_nothing occurs] at written
          rw [emitField_of_nothing canonical]
          exact written
      | records values =>
          rw [emitField_of_records occurs] at written
          rw [emitField_of_records canonical, List.map_map]
          refine Emission.concat_map_transfer ?_ written
          intro value inside piece
          exact emitRecord_canonical sound (same field.type value (lower value inside))
      | run values =>
          obtain ⟨run, content, rfl⟩ := (emitField_run sound occurs).mp written
          refine (emitField_run sound canonical).mpr ⟨run, ?_, rfl⟩
          rw [List.map_map]
          refine Emission.concat_map_transfer ?_ content
          intro value inside
          exact same field.type value (lower value inside)

private theorem emit_canonical_message
    (wellFormed : schema.WellFormed)
    {index : Nat}
    {name : String}
    {message : MessageType}
    (found : schema.definition? index = some ⟨name, .message message⟩)
    {value : Value}
    (same : ∀ type content, content.height < value.height →
      ∀ payload, schema.emit type content = .ofBytes payload →
        schema.emit type (schema.canonical type content) = .ofBytes payload)
    {bytes : List UInt8}
    (written : schema.emit (.definition index) value = .ofBytes bytes) :
    schema.emit (.definition index) (schema.canonical (.definition index) value) =
      .ofBytes bytes := by
  have names := (wellFormed.messages name message (mem_of_definition? found)).names
  obtain ⟨typeName, fields, rfl⟩ := isObject_of_emit found written
  rw [emit_message found] at written
  rw [canonical_message found, emit_message found]
  refine Emission.concat_map_transfer ?_ written
  intro field member piece
  apply emitField_canonical wellFormed.frames names member
  intro type content lower
  apply same type content
  simp only [Value.height]
  omega

/-- The canonical form is written as the value itself. -/
theorem emit_canonical
    (wellFormed : schema.WellFormed)
    (type : TypeRef)
    (value : Value)
    (bytes : List UInt8)
    (written : schema.emit type value = .ofBytes bytes) :
    schema.emit type (schema.canonical type value) = .ofBytes bytes := by
  induction height : value.height using Nat.strongRecOn generalizing type value bytes with
  | _ height inductionHypothesis =>
      subst height
      have same (type : TypeRef) (content : Value) (lower : content.height < value.height)
          (payload : List UInt8) (contentWritten : schema.emit type content = .ofBytes payload) :=
        inductionHypothesis content.height lower type content payload contentWritten rfl
      cases type with
      | scalar type =>
          have encoded := written
          rw [emit_scalar, Emission.ofExcept_eq_ofBytes] at encoded
          rw [canonical_scalar encoded]
          exact written
      | definition index =>
          rcases found : schema.definition? index with _ | ⟨name, message | enum | framed⟩
          · rw [emit_missing found] at written
            cases congrArg Emission.failure written
          · exact emit_canonical_message wellFormed found same written
          · obtain ⟨number, numbered, rfl⟩ := (emit_enum_eq_ofBytes found).mp written
            have legal := wellFormed.enums name enum (mem_of_definition? found)
            rw [canonical_enum found numbered]
            exact (emit_enum_eq_ofBytes found).mpr
              ⟨number, EnumType.numberOf_valueOf legal name number, rfl⟩
          · obtain ⟨-, innerName, message, inner⟩ :=
              wellFormed.frames _ (mem_of_definition? found) framed rfl
            obtain ⟨payload, content, checked, rfl⟩ :=
              (emit_framed wellFormed.frames found).mp written
            have innerSame := emit_canonical_message wellFormed inner same content
            obtain ⟨typeName, fields, rfl⟩ := isObject_of_emit inner content
            rw [canonical_framed wellFormed.frames found]
            exact (emit_framed wellFormed.frames found).mpr ⟨payload, innerSame, checked, rfl⟩

end Schema

/-! ### The canonical forms of admitted values -/

/-- Two entries that are both dropped, or kept alike. -/
def SameEntry (bound : Nat) (first second : Option (String × Value)) : Prop :=
  first = none ∧ second = none ∨
    ∃ name left right, first = some (name, left) ∧ second = some (name, right) ∧
      left.SameUpToOrder right ∧ left.nesting ≤ bound ∧ ¬ right.HasEmptyArray

/-- The canonical form of a value is the value without empty arrays, up to the order of fields. -/
structure Schema.Tidies (schema : Schema) (levels : Nat) (type : TypeRef) (value : Value) :
    Prop where
  same : (schema.canonical type value).SameUpToOrder value.withoutEmptyArrays
  shallow : (schema.canonical type value).nesting ≤ levels
  full : ¬ value.withoutEmptyArrays.HasEmptyArray
  single : ∀ elements, value ≠ .array elements
  canonicalSingle : ∀ elements, schema.canonical type value ≠ .array elements

/-- What is left of the content of a field when empty arrays are dropped. -/
def Field.kept? (fields : FieldMap Value) (field : Field) : Option (String × Value) :=
  (FieldMap.get? fields field.name).bind fun content => Value.keptEntry? (field.name, content)

namespace Schema

variable {schema : Schema}

private theorem tidies_leaf
    {levels : Nat}
    {type : TypeRef}
    {value : Value}
    (leaf : value.IsLeaf)
    (canonical : schema.canonical type value = value) :
    schema.Tidies levels type value := by
  have kept := Value.withoutEmptyArrays_eq_self value leaf.not_hasEmptyArray
  constructor
  · rw [canonical, kept]
    exact Value.SameUpToOrder.refl value
  · rw [canonical, leaf.nesting_eq]
    exact Nat.zero_le levels
  · rw [kept]
    exact leaf.not_hasEmptyArray
  · exact leaf.noArray
  · rw [canonical]
    exact leaf.noArray

/-- An array of values that differ from their canonical forms in empty arrays only. -/
private theorem sameEntry_array
    {levels : Nat}
    {type : TypeRef}
    {elements : List Value}
    (nonempty : elements ≠ [])
    (tidy : ∀ element ∈ elements, schema.Tidies levels type element)
    {name : String}
    {first second : Option (String × Value)}
    (canonical : first = some (name, .array (elements.map (schema.canonical type))))
    (kept : second = some (name, (Value.array elements).withoutEmptyArrays)) :
    SameEntry levels first second := by
  refine .inr ⟨_, _, _, canonical, kept, ?_, ?_, ?_⟩
  · rw [Value.SameUpToOrder, Value.withoutEmptyArrays, Value.elementsWithoutEmptyArrays_eq]
    exact ⟨_, rfl, Value.sameElements_map fun element inside => (tidy element inside).same⟩
  · rw [Value.nesting]
    apply Value.nestingOfElements_le
    intro element inside
    obtain ⟨original, member, rfl⟩ := List.mem_map.mp inside
    exact (tidy original member).shallow
  · rw [Value.withoutEmptyArrays, Value.elementsWithoutEmptyArrays_eq, Value.hasEmptyArray_array]
    rintro (empty | ⟨element, inside, has⟩)
    · exact nonempty (List.map_eq_nil_iff.mp empty)
    · obtain ⟨original, member, rfl⟩ := List.mem_map.mp inside
      exact (tidy original member).full has

/-- The content of a field is kept alike in the canonical form and without empty arrays. -/
private theorem sameEntry_of_admits
    {inside : TypeRef → Value → Prop}
    {levels : Nat}
    (tidies : ∀ type value, schema.IsFieldType type → inside type value →
      schema.Tidies levels type value)
    {message : MessageType}
    (legal : message.WellFormed schema)
    {fields : FieldMap Value}
    (admitted : message.Admits inside fields)
    {field : Field}
    (member : field ∈ message.fields) :
    SameEntry levels (field.entry? (schema.canonicalFields message fields)) (field.kept? fields) := by
  have named := MessageType.fieldByName?_of_mem legal.names member
  have canonical : FieldMap.get? (schema.canonicalFields message fields) field.name = _ :=
    get?_canonicalFields named fields
  unfold Field.kept?
  cases found : FieldMap.get? fields field.name with
  | none =>
      rw [found] at canonical
      left
      unfold Field.entry?
      rw [canonical]
      exact ⟨rfl, rfl⟩
  | some content =>
      rw [found, Option.map_some] at canonical
      have admits := admitted.content legal.names member found
      have tidy (value : Value) (holds : inside field.type value) :=
        tidies field.type value (legal.fields field member).type holds
      rw [Option.bind_some]
      cases repeated : field.isRepeated with
      | false =>
          rw [Field.Admits, repeated] at admits
          have facts := tidy content admits
          exact .inr ⟨_, _, _, Field.entry?_of_ne canonical (facts.canonicalSingle []),
            Value.keptEntry?_of_ne (facts.single []) field.name, facts.same, facts.shallow,
            facts.full⟩
      | true =>
          rw [Field.Admits, repeated] at admits
          obtain ⟨elements, rfl, each⟩ := admits
          rw [canonical_array] at canonical
          cases elements with
          | nil =>
              left
              unfold Field.entry?
              rw [canonical]
              simp [repeated, Value.keptEntry?]
          | cons first others =>
              exact sameEntry_array (List.cons_ne_nil first others)
                (fun element inside => tidy element (each element inside))
                (Field.entry?_of_ne canonical (by simp))
                (Value.keptEntry?_of_ne (by simp) field.name)

private theorem nodup_filterMap
    {α : Type}
    {key : α → String}
    {items : List α}
    (distinct : (items.map key).Nodup)
    {keep : α → Option (String × Value)}
    (named : ∀ item entry, keep item = some entry → entry.1 = key item) :
    (items.filterMap keep).Nodup := by
  rw [List.Nodup, List.pairwise_map] at distinct
  rw [List.Nodup, List.pairwise_filterMap]
  refine distinct.imp ?_
  intro first second different entry kept other otherKept same
  apply different
  rw [← named first entry kept, ← named second other otherKept, same]

/-- Admitted fields without empty arrays, in the order of their descriptors. -/
private theorem perm_kept
    {inside : TypeRef → Value → Prop}
    {message : MessageType}
    (names : (message.fields.map Field.name).Nodup)
    {fields : FieldMap Value}
    (admitted : message.Admits inside fields) :
    (Value.fieldsWithoutEmptyArrays fields).Perm
      (message.fields.filterMap (Field.kept? fields)) := by
  rw [Value.fieldsWithoutEmptyArrays_eq]
  apply (List.perm_ext_iff_of_nodup
    (nodup_filterMap admitted.distinct fun _ _ kept => Value.keptEntry?_name kept)
    (nodup_filterMap names fun field entry kept => by
      obtain ⟨content, -, same⟩ := Option.bind_eq_some_iff.mp kept
      exact Value.keptEntry?_name same)).mpr
  intro entry
  rw [List.mem_filterMap, List.mem_filterMap]
  constructor
  · rintro ⟨⟨name, content⟩, present, kept⟩
    obtain ⟨field, member, rfl, -⟩ := admitted.declared _ present
    refine ⟨field, member, ?_⟩
    rw [Field.kept?, FieldMap.get?_of_mem admitted.distinct present, Option.bind_some, kept]
  · rintro ⟨field, -, kept⟩
    obtain ⟨content, found, same⟩ := Option.bind_eq_some_iff.mp kept
    exact ⟨_, FieldMap.mem_of_get? found, same⟩

private theorem tidies_message
    {inside : TypeRef → Value → Prop}
    {levels index : Nat}
    (tidies : ∀ type value, schema.IsFieldType type → inside type value →
      schema.Tidies levels type value)
    {name : String}
    {message : MessageType}
    (found : schema.definition? index = some ⟨name, .message message⟩)
    (legal : message.WellFormed schema)
    {fields : FieldMap Value}
    (admitted : message.Admits inside fields) :
    schema.Tidies (levels + 1) (.definition index) (.object name fields) := by
  have entries (field : Field) (member : field ∈ message.fields) :=
    sameEntry_of_admits tidies legal admitted member
  constructor
  · rw [canonical_message found, Value.withoutEmptyArrays, Value.SameUpToOrder]
    refine ⟨_, _, rfl, perm_kept legal.names admitted, Value.sameFields_filterMap ?_⟩
    intro field member
    rcases entries field member with dropped | ⟨key, left, right, first, second, same, -, -⟩
    · exact .inl dropped
    · exact .inr ⟨key, left, right, first, second, same⟩
  · rw [canonical_message found, Value.nesting, Nat.add_comm]
    apply Nat.add_le_add_right
    apply Value.nestingOfFields_le
    intro entry kept
    obtain ⟨field, member, present⟩ := List.mem_filterMap.mp kept
    rcases entries field member with ⟨dropped, -⟩ | ⟨key, left, right, first, -, -, shallow, -⟩
    · rw [dropped] at present
      cases present
    · rw [first] at present
      cases present
      exact shallow
  · rw [Value.withoutEmptyArrays, Value.hasEmptyArray_object]
    rintro ⟨entry, kept, has⟩
    rw [(perm_kept legal.names admitted).mem_iff] at kept
    obtain ⟨field, member, present⟩ := List.mem_filterMap.mp kept
    rcases entries field member with ⟨-, dropped⟩ | ⟨key, left, right, -, second, -, -, full⟩
    · rw [dropped] at present
      cases present
    · rw [second] at present
      cases present
      exact full has
  · simp
  · rw [canonical_message found]
    simp

/-- Canonical forms of admitted values differ from the values in empty arrays and in the order of
fields only. -/
theorem tidies_of_admits
    (wellFormed : schema.WellFormed)
    {levels : Nat}
    {type : TypeRef}
    {value : Value}
    (legal : schema.IsFieldType type)
    (admitted : schema.Admits levels type value) :
    schema.Tidies levels type value := by
  induction levels using Nat.strongRecOn generalizing type value with
  | _ levels inductionHypothesis =>
      cases type with
      | scalar type =>
          obtain ⟨bytes, written⟩ := admits_scalar.mp admitted
          exact tidies_leaf (Scalar.isLeaf_of_encode written) (canonical_scalar written)
      | definition index =>
          obtain ⟨⟨name, kind⟩, found, unframed⟩ := legal
          cases kind with
          | message message =>
              obtain ⟨fewer, fields, rfl, rfl, inside⟩ := (admits_message found).mp admitted
              have messageLegal := wellFormed.messages name message (mem_of_definition? found)
              refine tidies_message ?_ found messageLegal inside
              intro type value legal admitted
              exact inductionHypothesis fewer (by omega) legal admitted
          | enum enum =>
              obtain ⟨number, rfl⟩ := (admits_enum found).mp admitted
              have numbered := EnumType.numberOf_valueOf
                (wellFormed.enums name enum (mem_of_definition? found)) name number
              exact tidies_leaf (enum.isLeaf_valueOf name number) (canonical_enum found numbered)
          | framed type => exact absurd rfl (unframed type)

/-! ### Decoded values -/

private theorem toExcept_of_succeedsIff {emission : Emission} {complete : Prop}
    (succeeds : emission.SucceedsIff complete) :
    ((∃ bytes, emission.toExcept = .ok bytes) ∨
        ∃ message field, emission.toExcept = .error (.missingRequiredField message field)) ∧
      ((∃ bytes, emission.toExcept = .ok bytes) ↔ complete) := by
  obtain ⟨bytes, failure⟩ := emission
  by_cases holds : complete
  · obtain rfl : failure = none := succeeds.1 holds
    exact ⟨.inl ⟨bytes, rfl⟩, fun _ => holds, fun _ => ⟨bytes, rfl⟩⟩
  · obtain ⟨message, field, same⟩ := succeeds.2 holds
    obtain rfl : failure = some (.missingRequiredField message field) := same
    exact ⟨.inr ⟨message, field, rfl⟩, nofun, fun complete => absurd complete holds⟩

/-- What was decoded is encoded unless a required field is missing somewhere, and the second round
gives the first value without empty arrays and the same bytes. -/
theorem WellFormed.reencode
    (wellFormed : schema.WellFormed)
    {name : String}
    {type : TypeRef}
    (resolved : schema.resolve name = .ok type)
    (legal : schema.IsFieldType type)
    {bytes : List UInt8}
    {value : Value}
    {consumed : Nat}
    (decoded : schema.decode name bytes = .ok (value, consumed)) :
    ((∃ written, schema.encode name value = .ok written) ∨
        ∃ message field,
          schema.encode name value = .error (.missingRequiredField message field)) ∧
      ((∃ written, schema.encode name value = .ok written) ↔ schema.IsComplete value) ∧
      ∀ written, schema.encode name value = .ok written → written.length < UInt64.size →
        ∃ again, schema.decode name written = .ok (again, written.length) ∧
          again.SameUpToOrder value.withoutEmptyArrays ∧
          (again.SameUpToOrder value ↔ ¬ value.HasEmptyArray) ∧
          schema.encode name again = .ok written := by
  have admitted := wellFormed.admits_of_decode resolved decoded
  have tidy := tidies_of_admits wellFormed legal admitted
  have outcome := toExcept_of_succeedsIff (succeedsIff_emit wellFormed legal admitted)
  rw [encode_eq wellFormed.frames resolved]
  refine ⟨outcome.1, outcome.2, ?_⟩
  intro written encoded fits
  have emitted := Emission.toExcept_eq_ok.mp encoded
  rw [← encode_eq wellFormed.frames resolved] at encoded
  refine ⟨schema.canonical type value, wellFormed.decode_encode resolved encoded fits tidy.shallow,
    tidy.same, ?_, ?_⟩
  · constructor
    · intro same empty
      have canonicalEmpty := (Value.SameUpToOrder.hasEmptyArray_iff _ _ same).mpr empty
      exact tidy.full ((Value.SameUpToOrder.hasEmptyArray_iff _ _ tidy.same).mp canonicalEmpty)
    · intro full
      have same := tidy.same
      rwa [Value.withoutEmptyArrays_eq_self value full] at same
  · rw [encode_eq wellFormed.frames resolved, Emission.toExcept_eq_ok]
    exact emit_canonical wellFormed type value written emitted

end Schema

end ProtoWire
