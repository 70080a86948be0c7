import ProtoWire.Codec.Encode
import ProtoWire.Proofs.Codec.Reading
import ProtoWire.Proofs.FieldMap
import ProtoWire.Proofs.Value.Nesting

/-!
Contract: the form of a value that survives writing and reading. A message keeps its declared
fields only, in the order of their descriptors and without empty arrays, and an enum is shown by
the first name of its number.

Owns:
- the canonical form of a value as a type, which does not nest deeper than the value;
- the entry of a field in the canonical form, for each way in which the field occurs.

Does not own: writing and reading.
-/

namespace ProtoWire

/-- What stands inside of all frames, if it is no message. -/
def Core.canonical (core : Core) (value : Value) : Value :=
  match core with
  | .enum name type =>
      match type.numberOf name value with
      | .ok number => type.valueOf name number
      | .error _ => value
  | _ => value

theorem Scalar.isLeaf_of_encode {type : Scalar} {value : Value} {bytes : List UInt8}
    (written : type.encode value = .ok bytes) :
    value.IsLeaf := by
  constructor
  · rintro elements rfl
    cases type <;> cases written
  · rintro typeName fields rfl
    cases type <;> cases written

theorem EnumType.isLeaf_of_numberOf {enum : EnumType} {name : String} {value : Value}
    {number : Int32}
    (numbered : enum.numberOf name value = .ok number) :
    value.IsLeaf := by
  constructor
  · rintro elements rfl
    cases numbered
  · rintro typeName fields rfl
    cases numbered

theorem EnumType.isLeaf_valueOf (name : String) (enum : EnumType) (number : Int32) :
    (enum.valueOf name number).IsLeaf := by
  unfold EnumType.valueOf
  split <;> constructor <;> simp

/-- What a message keeps of a field. -/
def Field.entry? (fields : FieldMap Value) (field : Field) : Option (String × Value) :=
  match FieldMap.get? fields field.name with
  | none => none
  | some (.array []) => if field.isRepeated then none else some (field.name, .array [])
  | some content => some (field.name, content)

theorem Field.entry?_of_ne
    {fields : FieldMap Value}
    {field : Field}
    {content : Value}
    (found : FieldMap.get? fields field.name = some content)
    (filled : content ≠ .array []) :
    field.entry? fields = some (field.name, content) := by
  unfold Field.entry?
  rw [found]
  split
  · rename_i absent
    cases absent
  · rename_i empty
    exact absurd (Option.some.inj empty) filled
  · rename_i present
    rw [Option.some.inj present]

theorem Field.entry?_name
    {fields : FieldMap Value}
    {field : Field}
    {name : String}
    {content : Value}
    (kept : field.entry? fields = some (name, content)) :
    name = field.name := by
  unfold Field.entry? at kept
  split at kept
  · cases kept
  · split at kept <;> cases kept
    rfl
  · cases kept
    rfl

theorem Field.get?_of_entry?
    {fields : FieldMap Value}
    {field : Field}
    {name : String}
    {content : Value}
    (kept : field.entry? fields = some (name, content)) :
    FieldMap.get? fields field.name = some content := by
  unfold Field.entry? at kept
  split at kept
  · cases kept
  · rename_i empty
    split at kept <;> cases kept
    exact empty
  · rename_i present
    cases kept
    exact present

/-- The declared fields in the order of their descriptors, without empty arrays. -/
def MessageType.arrange (message : MessageType) (fields : FieldMap Value) : FieldMap Value :=
  message.fields.filterMap (Field.entry? fields)

namespace Schema

mutual

/-- The canonical form of a value. The elements of an array have the form of single values. -/
def canonical (schema : Schema) (type : TypeRef) : Value → Value
  | .array elements => .array (schema.canonicalElements type elements)
  | .object typeName fields =>
      match (schema.layers type).core with
      | .message name message =>
          .object name (message.arrange (schema.canonicalFields message fields))
      | _ => .object typeName fields
  | leaf => (schema.layers type).core.canonical leaf

def canonicalElements (schema : Schema) (type : TypeRef) : List Value → List Value
  | [] => []
  | element :: others => schema.canonical type element :: schema.canonicalElements type others

def canonicalFields (schema : Schema) (message : MessageType) :
    List (String × Value) → List (String × Value)
  | [] => []
  | (name, content) :: others =>
      (name,
        match message.fieldByName? name with
        | some field => schema.canonical field.type content
        | none => content) ::
        schema.canonicalFields message others

end

variable {schema : Schema}

theorem canonicalElements_eq (schema : Schema) (type : TypeRef) (elements : List Value) :
    schema.canonicalElements type elements = elements.map (schema.canonical type) := by
  induction elements with
  | nil => rw [canonicalElements, List.map_nil]
  | cons element others inductionHypothesis =>
      rw [canonicalElements, List.map_cons, inductionHypothesis]

theorem canonical_array (type : TypeRef) (elements : List Value) :
    schema.canonical type (.array elements) = .array (elements.map (schema.canonical type)) := by
  rw [canonical, canonicalElements_eq]

theorem canonical_leaf (type : TypeRef) {value : Value} (leaf : value.IsLeaf) :
    schema.canonical type value = (schema.layers type).core.canonical value := by
  cases value with
  | array elements => exact absurd rfl (leaf.noArray elements)
  | object typeName fields => exact absurd rfl (leaf.noObject typeName fields)
  | _ => rw [canonical] <;> simp

theorem canonical_scalar {type : Scalar} {value : Value} {bytes : List UInt8}
    (written : type.encode value = .ok bytes) :
    schema.canonical (.scalar type) value = value := by
  rw [canonical_leaf _ (Scalar.isLeaf_of_encode written), layers, layersWithin_scalar]
  rfl

theorem canonical_enum
    {index : Nat}
    {name : String}
    {enum : EnumType}
    (found : schema.definition? index = some ⟨name, .enum enum⟩)
    {value : Value}
    {number : Int32}
    (numbered : enum.numberOf name value = .ok number) :
    schema.canonical (.definition index) value = enum.valueOf name number := by
  rw [canonical_leaf _ (EnumType.isLeaf_of_numberOf numbered), layers, layersWithin_enum found]
  simp only [Core.canonical, numbered]

theorem canonical_message
    {index : Nat}
    {name : String}
    {message : MessageType}
    (found : schema.definition? index = some ⟨name, .message message⟩)
    (typeName : String)
    (fields : FieldMap Value) :
    schema.canonical (.definition index) (.object typeName fields) =
      .object name (message.arrange (schema.canonicalFields message fields)) := by
  have core : (schema.layers (.definition index)).core = .message name message := by
    rw [layers, layersWithin_message found]
  rw [canonical, core]

/-- A framed message has the canonical form of the message that it wraps. -/
theorem canonical_framed
    (sound : schema.HasSoundFrames)
    {index : Nat}
    {name : String}
    {type : FramedType}
    (found : schema.definition? index = some ⟨name, .framed type⟩)
    (typeName : String)
    (fields : FieldMap Value) :
    schema.canonical (.definition index) (.object typeName fields) =
      schema.canonical (.definition type.inner) (.object typeName fields) := by
  obtain ⟨-, innerName, message, inner⟩ := sound _ (mem_of_definition? found) type rfl
  rw [canonical_message inner, canonical, layers_framed_message found inner]

theorem get?_canonicalFields
    {message : MessageType}
    {field : Field}
    (named : message.fieldByName? field.name = some field)
    (fields : FieldMap Value) :
    FieldMap.get? (schema.canonicalFields message fields) field.name =
      (FieldMap.get? fields field.name).map (schema.canonical field.type) := by
  induction fields with
  | nil =>
      rw [canonicalFields]
      rfl
  | cons entry others inductionHypothesis =>
      obtain ⟨key, content⟩ := entry
      rw [canonicalFields, FieldMap.get?, FieldMap.get?]
      by_cases same : key = field.name
      · rw [if_pos same, if_pos same, same, named]
        rfl
      · rw [if_neg same, if_neg same, inductionHypothesis]

/-! ### Nesting -/

private theorem nestingOfFields_arrange_le (message : MessageType) (fields : FieldMap Value) :
    Value.nestingOfFields (message.arrange fields) ≤ Value.nestingOfFields fields := by
  apply Value.nestingOfFields_le
  rintro ⟨name, content⟩ member
  obtain ⟨field, -, kept⟩ := List.mem_filterMap.mp member
  exact Value.nesting_le_of_mem_fields (FieldMap.mem_of_get? (Field.get?_of_entry? kept))

private theorem nesting_leaf_le (type : TypeRef) {value : Value} (leaf : value.IsLeaf) :
    (schema.canonical type value).nesting ≤ value.nesting := by
  rw [canonical_leaf type leaf]
  generalize (schema.layers type).core = core
  cases core with
  | enum name type =>
      rw [Core.canonical]
      split
      · rw [(type.isLeaf_valueOf name _).nesting_eq]
        exact Nat.zero_le value.nesting
      · exact Nat.le_refl value.nesting
  | _ => exact Nat.le_refl value.nesting

mutual

/-- The canonical form of a value does not nest deeper than the value. -/
theorem nesting_canonical_le (schema : Schema) (type : TypeRef) :
    ∀ value : Value, (schema.canonical type value).nesting ≤ value.nesting
  | .array elements => by
      rw [canonical, Value.nesting, Value.nesting]
      exact nesting_canonicalElements_le schema type elements
  | .object typeName fields => by
      rw [canonical]
      split
      · rename_i message _
        rw [Value.nesting, Value.nesting]
        apply Nat.add_le_add_left
        exact Nat.le_trans (nestingOfFields_arrange_le message _)
          (nesting_canonicalFields_le schema message fields)
      · exact Nat.le_refl _
  | .bool _ | .int32 _ | .int64 _ | .uint32 _ | .uint64 _ | .float _
  | .double _ | .string _ | .bytes _ | .enum _ _ => by
      apply nesting_leaf_le
      constructor <;> simp

private theorem nesting_canonicalElements_le (schema : Schema) (type : TypeRef) :
    ∀ elements : List Value,
      Value.nestingOfElements (schema.canonicalElements type elements) ≤
        Value.nestingOfElements elements
  | [] => by simp [canonicalElements]
  | element :: others => by
      rw [canonicalElements, Value.nestingOfElements, Value.nestingOfElements]
      have first := nesting_canonical_le schema type element
      have rest := nesting_canonicalElements_le schema type others
      omega

private theorem nesting_canonicalFields_le (schema : Schema) (message : MessageType) :
    ∀ fields : List (String × Value),
      Value.nestingOfFields (schema.canonicalFields message fields) ≤
        Value.nestingOfFields fields
  | [] => by simp [canonicalFields]
  | (name, content) :: others => by
      rw [canonicalFields, Value.nestingOfFields, Value.nestingOfFields]
      have rest := nesting_canonicalFields_le schema message others
      cases message.fieldByName? name with
      | none =>
          simp only
          omega
      | some field =>
          have first := nesting_canonical_le schema field.type content
          simp only
          omega

end

/-! ### Occurrences -/

/-- How a field of a message occurs, and the entry that its canonical form has. -/
inductive Occurs (schema : Schema) (field : Field) (entry : Option (String × Value)) :
    Occurrence → Prop where
  | nothing
      (optional : field.isRequired = false)
      (absent : entry = none) :
      Occurs schema field entry .nothing
  | single {value : Value}
      (singular : field.isRepeated = false)
      (present : entry = some (field.name, schema.canonical field.type value)) :
      Occurs schema field entry (.records [value])
  | records {values : List Value}
      (repeated : field.isRepeated = true)
      (unpacked : (field.packed && schema.wireType field.type != .lengthDelimited) = false)
      (nonempty : values ≠ [])
      (present : entry =
        some (field.name, .array (values.map (schema.canonical field.type)))) :
      Occurs schema field entry (.records values)
  | run {values : List Value}
      (repeated : field.isRepeated = true)
      (packed : (field.packed && schema.wireType field.type != .lengthDelimited) = true)
      (nonempty : values ≠ [])
      (present : entry =
        some (field.name, .array (values.map (schema.canonical field.type)))) :
      Occurs schema field entry (.run values)

theorem occurs_of_occurrence
    {message : MessageType}
    {messageName : String}
    {fields : FieldMap Value}
    {field : Field}
    {occurrence : Occurrence}
    (named : message.fieldByName? field.name = some field)
    (occurs : schema.occurrence messageName fields field = .ok occurrence) :
    schema.Occurs field (field.entry? (schema.canonicalFields message fields)) occurrence := by
  have entry : FieldMap.get? (schema.canonicalFields message fields) field.name = _ :=
    get?_canonicalFields named fields
  unfold Schema.occurrence at occurs
  unfold Field.entry?
  rw [entry]
  cases found : FieldMap.get? fields field.name with
  | none =>
      rw [found] at occurs
      simp only at occurs
      split at occurs
      · cases occurs
      · rename_i optional
        obtain rfl := Except.ok.inj occurs
        exact .nothing (Bool.eq_false_iff.mpr optional) rfl
  | some content =>
      rw [found] at occurs
      simp only [Option.map_some] at occurs ⊢
      cases repeated : field.isRepeated with
      | false =>
          simp only [repeated] at occurs
          obtain rfl := Except.ok.inj occurs
          refine .single repeated ?_
          split <;> simp_all
      | true =>
          simp only [repeated, if_true] at occurs ⊢
          cases content with
          | array elements =>
              cases elements with
              | nil =>
                  have optional : field.isRequired = false := by
                    rw [Field.isRepeated, beq_iff_eq] at repeated
                    rw [Field.isRequired, repeated]
                    rfl
                  obtain rfl := Except.ok.inj occurs
                  rw [canonical_array]
                  exact .nothing optional rfl
              | cons first others =>
                  rw [canonical_array]
                  simp only at occurs
                  split at occurs
                  · rename_i packed
                    obtain rfl := Except.ok.inj occurs
                    exact .run repeated packed (List.cons_ne_nil first others) rfl
                  · rename_i unpacked
                    obtain rfl := Except.ok.inj occurs
                    exact .records repeated (Bool.eq_false_iff.mpr unpacked)
                      (List.cons_ne_nil first others) rfl
          | _ => cases occurs

end Schema

end ProtoWire
