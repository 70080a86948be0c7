import ProtoWire.Proofs.Codec.Reading
import ProtoWire.Proofs.Value.Parts

/-!
Contract: values without the fields that a schema does not declare. Restricting the fields of a
message commutes with the records that fill them.

Owns:
- what a schema keeps of a value, for types of any kind;
- what it keeps of the fields of a message after one record, and after a run of records.

Does not own: where the values come from.
-/

namespace ProtoWire

namespace Schema

variable {schema : Schema}

/-! ### Values -/

mutual

/-- A value without the fields that the schema does not declare, at any depth. -/
def restrict (schema : Schema) (type : TypeRef) : Value → Value
  | .array elements => .array (schema.restrictElements type elements)
  | .object typeName fields =>
      match (schema.layers type).core with
      | .message _ message => .object typeName (schema.restrictFields message fields)
      | _ => .object typeName fields
  | leaf => leaf

def restrictElements (schema : Schema) (type : TypeRef) : List Value → List Value
  | [] => []
  | element :: others => schema.restrict type element :: schema.restrictElements type others

def restrictFields (schema : Schema) (message : MessageType) :
    List (String × Value) → List (String × Value)
  | [] => []
  | (name, content) :: others =>
      match message.fieldByName? name with
      | some field =>
          (name, schema.restrict field.type content) :: schema.restrictFields message others
      | none => schema.restrictFields message others

end

-- Most lemmas below open these definitions, so their equations are at hand.
attribute [local simp] restrict restrictElements restrictFields

theorem restrictElements_eq (schema : Schema) (type : TypeRef) (elements : List Value) :
    schema.restrictElements type elements = elements.map (schema.restrict type) := by
  induction elements with
  | nil => rw [restrictElements, List.map_nil]
  | cons element others inductionHypothesis =>
      rw [restrictElements, List.map_cons, inductionHypothesis]

theorem restrict_array (type : TypeRef) (elements : List Value) :
    schema.restrict type (.array elements) = .array (elements.map (schema.restrict type)) := by
  rw [restrict, restrictElements_eq]

theorem asArray_restrict (type : TypeRef) (value : Value) :
    (schema.restrict type value).asArray = value.asArray.map (schema.restrict type) := by
  cases value with
  | array elements =>
      rw [restrict_array]
      rfl
  | object typeName fields =>
      rw [restrict]
      split <;> rfl
  | _ => rw [restrict] <;> first | rfl | simp

theorem restrict_leaf (type : TypeRef) {value : Value} (leaf : value.IsLeaf) :
    schema.restrict type value = value := by
  cases value with
  | array elements => exact absurd rfl (leaf.noArray elements)
  | object typeName fields => exact absurd rfl (leaf.noObject typeName fields)
  | _ => rw [restrict] <;> simp

theorem restrict_message
    {index : Nat}
    {name : String}
    {message : MessageType}
    (found : schema.definition? index = some ⟨name, .message message⟩)
    (typeName : String)
    (fields : FieldMap Value) :
    schema.restrict (.definition index) (.object typeName fields) =
      .object typeName (schema.restrictFields message fields) := by
  have core : (schema.layers (.definition index)).core = .message name message := by
    rw [layers, layersWithin_message found]
  rw [restrict, core]

theorem restrict_framed
    (sound : schema.HasSoundFrames)
    {index : Nat}
    {name : String}
    {type : FramedType}
    (found : schema.definition? index = some ⟨name, .framed type⟩)
    (typeName : String)
    (fields : FieldMap Value) :
    schema.restrict (.definition index) (.object typeName fields) =
      schema.restrict (.definition type.inner) (.object typeName fields) := by
  obtain ⟨-, innerName, message, inner⟩ := sound _ (mem_of_definition? found) type rfl
  rw [restrict_message inner, restrict, layers_framed_message found inner]

/-! ### Fields -/

section Fields

variable {message : MessageType} {name : String}

theorem restrictFields_cons_of_none
    (unknown : message.fieldByName? name = none)
    (content : Value)
    (others : FieldMap Value) :
    schema.restrictFields message ((name, content) :: others) =
      schema.restrictFields message others := by
  simp only [restrictFields, unknown]

theorem restrictFields_cons_of_some
    {field : Field}
    (known : message.fieldByName? name = some field)
    (content : Value)
    (others : FieldMap Value) :
    schema.restrictFields message ((name, content) :: others) =
      (name, schema.restrict field.type content) :: schema.restrictFields message others := by
  simp only [restrictFields, known]

theorem get?_restrictFields
    {field : Field}
    (known : message.fieldByName? name = some field)
    (fields : FieldMap Value) :
    FieldMap.get? (schema.restrictFields message fields) name =
      (FieldMap.get? fields name).map (schema.restrict field.type) := by
  induction fields with
  | nil =>
      rw [restrictFields]
      rfl
  | cons entry others inductionHypothesis =>
      obtain ⟨key, content⟩ := entry
      rw [FieldMap.get?]
      by_cases same : key = name
      · subst same
        rw [restrictFields_cons_of_some known, FieldMap.get?, if_pos rfl, if_pos rfl]
        rfl
      · rw [if_neg same, ← inductionHypothesis]
        cases declared : message.fieldByName? key with
        | none => rw [restrictFields_cons_of_none declared]
        | some other => rw [restrictFields_cons_of_some declared, FieldMap.get?, if_neg same]

/-- What is left of the fields comes from the entries of declared fields. -/
theorem exists_of_mem_restrictFields
    {fields : FieldMap Value}
    {entry : String × Value}
    (member : entry ∈ schema.restrictFields message fields) :
    ∃ field content, message.fieldByName? entry.1 = some field ∧ (entry.1, content) ∈ fields ∧
      entry.2 = schema.restrict field.type content := by
  induction fields with
  | nil =>
      rw [restrictFields] at member
      cases member
  | cons first others inductionHypothesis =>
      obtain ⟨key, content⟩ := first
      cases declared : message.fieldByName? key with
      | none =>
          rw [restrictFields_cons_of_none declared] at member
          obtain ⟨field, original, known, inside, same⟩ := inductionHypothesis member
          exact ⟨field, original, known, List.mem_cons_of_mem _ inside, same⟩
      | some field =>
          rw [restrictFields_cons_of_some declared] at member
          rcases List.mem_cons.mp member with rfl | later
          · exact ⟨field, content, declared, List.mem_cons_self, rfl⟩
          · obtain ⟨other, original, known, inside, same⟩ := inductionHypothesis later
            exact ⟨other, original, known, List.mem_cons_of_mem _ inside, same⟩

theorem elements_restrictFields
    {field : Field}
    (known : message.fieldByName? name = some field)
    (fields : FieldMap Value) :
    FieldMap.elements (schema.restrictFields message fields) name =
      (FieldMap.elements fields name).map (schema.restrict field.type) := by
  unfold FieldMap.elements
  rw [get?_restrictFields known]
  cases FieldMap.get? fields name with
  | none => rfl
  | some content => exact asArray_restrict field.type content

/-- An entry that is not declared is set without effect. -/
theorem restrictFields_insert_of_none
    (unknown : message.fieldByName? name = none)
    (fields : FieldMap Value)
    (content : Value) :
    schema.restrictFields message (FieldMap.insert fields name content) =
      schema.restrictFields message fields := by
  induction fields with
  | nil => rw [FieldMap.insert, restrictFields_cons_of_none unknown]
  | cons entry others inductionHypothesis =>
      obtain ⟨key, old⟩ := entry
      rw [FieldMap.insert]
      by_cases same : key = name
      · subst same
        rw [if_pos rfl, restrictFields_cons_of_none unknown, restrictFields_cons_of_none unknown]
      · rw [if_neg same]
        cases declared : message.fieldByName? key with
        | none =>
            rw [restrictFields_cons_of_none declared, restrictFields_cons_of_none declared,
              inductionHypothesis]
        | some other =>
            rw [restrictFields_cons_of_some declared, restrictFields_cons_of_some declared,
              inductionHypothesis]

theorem restrictFields_insert_of_some
    {field : Field}
    (known : message.fieldByName? name = some field)
    (fields : FieldMap Value)
    (content : Value) :
    schema.restrictFields message (FieldMap.insert fields name content) =
      FieldMap.insert (schema.restrictFields message fields) name
        (schema.restrict field.type content) := by
  induction fields with
  | nil =>
      rw [FieldMap.insert, restrictFields_cons_of_some known, restrictFields]
      rfl
  | cons entry others inductionHypothesis =>
      obtain ⟨key, old⟩ := entry
      rw [FieldMap.insert]
      by_cases same : key = name
      · subst same
        rw [if_pos rfl, restrictFields_cons_of_some known, restrictFields_cons_of_some known,
          FieldMap.insert, if_pos rfl]
      · rw [if_neg same]
        cases declared : message.fieldByName? key with
        | none =>
            rw [restrictFields_cons_of_none declared, restrictFields_cons_of_none declared,
              inductionHypothesis]
        | some other =>
            rw [restrictFields_cons_of_some declared, restrictFields_cons_of_some declared,
              inductionHypothesis, FieldMap.insert, if_neg same]

end Fields

/-! ### Records -/

/-- What is left of a record: nothing if it belongs to a field that is not declared. -/
def restrictUpdate (schema : Schema) (message : MessageType) : Update → Update
  | .skip => .skip
  | .set name value =>
      match message.fieldByName? name with
      | some field => .set name (schema.restrict field.type value)
      | none => .skip
  | .extend name values =>
      match message.fieldByName? name with
      | some field => .extend name (values.map (schema.restrict field.type))
      | none => .skip

/-- What is left of a record does to what is left of the fields what the record does to the
fields. -/
theorem restrictFields_apply
    (message : MessageType)
    (fields : FieldMap Value)
    (update : Update) :
    schema.restrictFields message (update.apply fields) =
      (schema.restrictUpdate message update).apply (schema.restrictFields message fields) := by
  cases update with
  | skip => rfl
  | set name value =>
      rw [Update.apply, restrictUpdate]
      cases declared : message.fieldByName? name with
      | none => exact restrictFields_insert_of_none declared fields value
      | some field => exact restrictFields_insert_of_some declared fields value
  | extend name values =>
      rw [Update.apply, FieldMap.extend, restrictUpdate]
      cases declared : message.fieldByName? name with
      | none => exact restrictFields_insert_of_none declared fields _
      | some field =>
          rw [restrictFields_insert_of_some declared, restrict_array, List.map_append,
            ← elements_restrictFields declared]
          rfl

theorem restrictFields_foldl
    (message : MessageType)
    (fields : FieldMap Value)
    (updates : List Update) :
    schema.restrictFields message (updates.foldl Update.apply fields) =
      (updates.map (schema.restrictUpdate message)).foldl Update.apply
        (schema.restrictFields message fields) := by
  induction updates generalizing fields with
  | nil => rfl
  | cons update others inductionHypothesis =>
      rw [List.foldl_cons, inductionHypothesis, restrictFields_apply, List.map_cons,
        List.foldl_cons]

/-- A record of a field that is not declared leaves nothing. -/
theorem restrictUpdate_of_none
    {message : MessageType}
    {field : Field}
    (unknown : message.fieldByName? field.name = none)
    (value : Value) :
    schema.restrictUpdate message (field.update value) = .skip := by
  unfold Field.update
  split <;> simp only [restrictUpdate, unknown]

theorem restrictUpdate_of_some
    {message : MessageType}
    {field : Field}
    (known : message.fieldByName? field.name = some field)
    (value : Value) :
    schema.restrictUpdate message (field.update value) =
      field.update (schema.restrict field.type value) := by
  unfold Field.update
  split <;> simp only [restrictUpdate, known, List.map_cons, List.map_nil]

end Schema

end ProtoWire
