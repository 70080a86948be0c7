import ProtoWire.Proofs.Codec.Admission
import ProtoWire.Proofs.Codec.TwoPass
import ProtoWire.Proofs.Value.Parts

/-!
Contract: why admitted values cannot be written. The only cause is a required field that an object
lacks, at any depth.

Owns:
- values whose objects have all their required fields;
- the outcome of writing an admitted value.

Does not own: what is written.
-/

namespace ProtoWire

/-! ### Outcomes -/

namespace Emission

/-- An emission succeeds under a condition, and fails for want of a required field otherwise. -/
def SucceedsIff (emission : Emission) (complete : Prop) : Prop :=
  (complete → emission.failure = none) ∧
    (¬ complete → ∃ message field,
      emission.failure = some (.missingRequiredField message field))

theorem succeedsIff_ofBytes (bytes : List UInt8) {complete : Prop} (holds : complete) :
    (ofBytes bytes).SucceedsIff complete :=
  ⟨fun _ => rfl, fun fails => absurd holds fails⟩

theorem SucceedsIff.congr
    {emission : Emission}
    {first second : Prop}
    (succeeds : emission.SucceedsIff first)
    (same : first ↔ second) :
    emission.SucceedsIff second := by
  rwa [← propext same]

theorem SucceedsIff.of_failure_eq
    {emission other : Emission}
    {complete : Prop}
    (succeeds : emission.SucceedsIff complete)
    (same : other.failure = emission.failure) :
    other.SucceedsIff complete := by
  unfold SucceedsIff
  rw [same]
  exact succeeds

theorem failure_append (first second : Emission) :
    (first ++ second).failure = first.failure.or second.failure := by
  obtain ⟨bytes, failure⟩ := first
  cases failure <;> rfl

theorem SucceedsIff.append
    {first second : Emission}
    {left right : Prop}
    (succeedsFirst : first.SucceedsIff left)
    (succeedsSecond : second.SucceedsIff right) :
    (first ++ second).SucceedsIff (left ∧ right) := by
  unfold SucceedsIff
  rw [failure_append]
  constructor
  · rintro ⟨leftHolds, rightHolds⟩
    rw [succeedsFirst.1 leftHolds, succeedsSecond.1 rightHolds]
    rfl
  · intro fails
    by_cases leftHolds : left
    · obtain ⟨message, field, failure⟩ :=
        succeedsSecond.2 fun rightHolds => fails ⟨leftHolds, rightHolds⟩
      exact ⟨message, field, by rw [succeedsFirst.1 leftHolds, failure]; rfl⟩
    · obtain ⟨message, field, failure⟩ := succeedsFirst.2 leftHolds
      exact ⟨message, field, by rw [failure]; rfl⟩

theorem succeedsIff_concat_map
    {α : Type}
    {emit : α → Emission}
    {Complete : α → Prop}
    {items : List α}
    (each : ∀ item ∈ items, (emit item).SucceedsIff (Complete item)) :
    (concat (items.map emit)).SucceedsIff (∀ item ∈ items, Complete item) := by
  induction items with
  | nil => exact succeedsIff_ofBytes [] fun _ member => nomatch member
  | cons item others inductionHypothesis =>
      have tail := inductionHypothesis fun other member =>
        each other (List.mem_cons_of_mem item member)
      rw [List.map_cons, concat_cons]
      exact ((each item List.mem_cons_self).append tail).congr List.forall_mem_cons.symm

end Emission

namespace Schema

variable {schema : Schema}

/-- A length that is known exactly when its payload succeeds adds no cause of failure. -/
private theorem failure_emitLength_append
    {payload : Emission}
    {size : Except WireError Nat}
    (counted : payload.count = size) :
    (emitLength size ++ payload).failure = payload.failure := by
  subst counted
  obtain ⟨bytes, failure⟩ := payload
  cases failure <;> rfl

private theorem failure_emitRecord
    (sound : schema.HasSoundFrames)
    (field : Field)
    (value : Value) :
    (schema.emitRecord schema.size schema.emit field value).failure =
      (schema.emit field.type value).failure := by
  unfold emitRecord
  by_cases delimited : schema.wireType field.type = .lengthDelimited
  · simp only [if_pos delimited]
    rw [Emission.append_assoc, Emission.append_ofBytes]
    exact failure_emitLength_append (count_emit sound field.type value)
  · simp only [if_neg delimited]
    rw [Emission.append_empty, Emission.append_ofBytes]

private theorem failure_emitField_run
    (sound : schema.HasSoundFrames)
    {messageName : String}
    {fields : FieldMap Value}
    {field : Field}
    {values : List Value}
    (occurs : schema.occurrence messageName fields field = .ok (.run values)) :
    (schema.emitField schema.size schema.emit messageName fields field).failure =
      (Emission.concat (values.map (schema.emit field.type))).failure := by
  rw [emitField_of_run occurs, Emission.append_assoc, Emission.append_ofBytes]
  exact failure_emitLength_append
    (Emission.count_concat_map fun value _ => count_emit sound field.type value)

/-! ### Complete values -/

/-- Every object anywhere in a value has all required fields of its descriptor. -/
def IsComplete (schema : Schema) (value : Value) : Prop :=
  ∀ typeName fields, .object typeName fields ∈ value.parts →
    ∀ message, (schema.definitionByName? typeName).bind Definition.message? = some message →
      ∀ field ∈ message.fields, field.isRequired = true → field.name ∈ FieldMap.keys fields

theorem isComplete_array {elements : List Value} :
    schema.IsComplete (.array elements) ↔ ∀ element ∈ elements, schema.IsComplete element := by
  constructor
  · intro complete element member typeName fields inside
    exact complete typeName fields (Value.mem_parts_array.mpr (.inr ⟨element, member, inside⟩))
  · intro each typeName fields inside
    rcases Value.mem_parts_array.mp inside with same | ⟨element, member, inside⟩
    · cases same
    · exact each element member typeName fields inside

/-- An object is complete if it has its own required fields and its contents are complete. -/
theorem isComplete_object
    {name : String}
    {message : MessageType}
    (named : (schema.definitionByName? name).bind Definition.message? = some message)
    {fields : List (String × Value)} :
    schema.IsComplete (.object name fields) ↔
      (∀ field ∈ message.fields, field.isRequired = true → field.name ∈ FieldMap.keys fields) ∧
        ∀ entry ∈ fields, schema.IsComplete entry.2 := by
  constructor
  · intro complete
    constructor
    · exact complete name fields (Value.mem_parts_object.mpr (.inl rfl)) message named
    · intro entry member typeName contents inside
      exact complete typeName contents (Value.mem_parts_object.mpr (.inr ⟨entry, member, inside⟩))
  · rintro ⟨own, each⟩ typeName contents inside other otherNamed
    rcases Value.mem_parts_object.mp inside with same | ⟨entry, member, inside⟩
    · cases same
      obtain rfl := Option.some.inj (otherNamed.symm.trans named)
      exact own
    · exact each entry member typeName contents inside other otherNamed

theorem isComplete_leaf {value : Value} (leaf : value.IsLeaf) : schema.IsComplete value := by
  intro typeName fields inside
  rw [leaf.parts_eq, List.mem_singleton] at inside
  exact absurd inside.symm (leaf.noObject typeName fields)

theorem WellFormed.definitionByName?_eq
    (wellFormed : schema.WellFormed)
    {index : Nat}
    {name : String}
    {message : MessageType}
    (found : schema.definition? index = some ⟨name, .message message⟩) :
    (schema.definitionByName? name).bind Definition.message? = some message := by
  have place := indexOf?_of_definition? wellFormed.names found
  unfold definitionByName?
  rw [place, Option.bind_some, found]
  rfl

end Schema

/-- What is shown of a number of an enum is written as this number. -/
theorem EnumType.numberOf_valueOf {enum : EnumType} (wellFormed : enum.WellFormed)
    (name : String)
    (number : Int32) :
    enum.numberOf name (enum.valueOf name number) = .ok number := by
  unfold EnumType.valueOf
  cases named : enum.nameOf? number with
  | none => rfl
  | some valueName =>
      unfold EnumType.numberOf
      simp only [EnumType.numberOf?_of_nameOf? wellFormed named]

namespace Schema

variable {schema : Schema}

/-! ### Admitted values -/

section Fields

variable
  {inside : TypeRef → Value → Prop}
  {field : Field}
  {messageName : String}
  {fields : FieldMap Value}

/-- The values that are written for a field decide whether the writing succeeds. -/
private theorem succeedsIff_emitField_of_occurrence
    (sound : schema.HasSoundFrames)
    {occurrence : Occurrence}
    (occurs : schema.occurrence messageName fields field = .ok occurrence)
    (succeeds : ∀ value ∈ occurrence.values,
      (schema.emit field.type value).SucceedsIff (schema.IsComplete value)) :
    (schema.emitField schema.size schema.emit messageName fields field).SucceedsIff
      (∀ value ∈ occurrence.values, schema.IsComplete value) := by
  cases occurrence with
  | nothing =>
      rw [emitField_of_nothing occurs]
      exact Emission.succeedsIff_ofBytes [] fun _ member => nomatch member
  | records values =>
      rw [emitField_of_records occurs]
      apply Emission.succeedsIff_concat_map
      intro value member
      exact (succeeds value member).of_failure_eq (failure_emitRecord sound field value)
  | run values =>
      exact (Emission.succeedsIff_concat_map succeeds).of_failure_eq
        (failure_emitField_run sound occurs)

/-- What a message writes for the content of a field that admits it. -/
private theorem occurrence_of_admits
    {content : Value}
    (found : FieldMap.get? fields field.name = some content)
    (admits : field.Admits inside content) :
    ∃ occurrence, schema.occurrence messageName fields field = .ok occurrence ∧
      (∀ value ∈ occurrence.values, inside field.type value) ∧
        ((∀ value ∈ occurrence.values, schema.IsComplete value) ↔ schema.IsComplete content) := by
  unfold occurrence
  rw [found]
  cases repeated : field.isRepeated with
  | false =>
      rw [Field.Admits, repeated] at admits
      refine ⟨.records [content], rfl, ?_, ?_⟩
      · intro value member
        obtain rfl := List.mem_singleton.mp member
        exact admits
      · simp [Occurrence.values]
  | true =>
      rw [Field.Admits, repeated] at admits
      obtain ⟨elements, rfl, each⟩ := admits
      rw [isComplete_array]
      cases elements with
      | nil => exact ⟨.nothing, rfl, by simp [Occurrence.values], by simp [Occurrence.values]⟩
      | cons first others =>
          by_cases packed : (field.packed && schema.wireType field.type != .lengthDelimited) = true
          · exact ⟨.run (first :: others), by simp [packed], each, Iff.rfl⟩
          · exact ⟨.records (first :: others), by simp [packed], each, Iff.rfl⟩

private theorem succeedsIff_emitField
    (wellFormed : schema.WellFormed)
    {message : MessageType}
    (legal : message.WellFormed schema)
    (succeeds : ∀ type value, schema.IsFieldType type → inside type value →
      (schema.emit type value).SucceedsIff (schema.IsComplete value))
    (admitted : message.Admits inside fields)
    (messageName : String)
    (member : field ∈ message.fields) :
    (schema.emitField schema.size schema.emit messageName fields field).SucceedsIff
      ((field.isRequired = true → field.name ∈ FieldMap.keys fields) ∧
        ∀ content, FieldMap.get? fields field.name = some content →
          schema.IsComplete content) := by
  cases found : FieldMap.get? fields field.name with
  | none =>
      have absent := FieldMap.get?_eq_none.mp found
      cases required : field.isRequired with
      | true =>
          have occurs : schema.occurrence messageName fields field =
              .error (.missingRequiredField messageName field.name) := by
            unfold occurrence
            simp [found, required]
          rw [emitField_of_error occurs]
          exact ⟨fun complete => absurd (complete.1 rfl) absent, fun _ => ⟨_, _, rfl⟩⟩
      | false =>
          have occurs : schema.occurrence messageName fields field = .ok .nothing := by
            unfold occurrence
            simp [found, required]
          rw [emitField_of_nothing occurs]
          exact Emission.succeedsIff_ofBytes [] (by simp)
  | some content =>
      have present : field.name ∈ FieldMap.keys fields :=
        List.mem_map.mpr ⟨_, FieldMap.mem_of_get? found, rfl⟩
      obtain ⟨occurrence, occurs, holds, same⟩ :=
        occurrence_of_admits found (admitted.content legal.names member found)
      refine (succeedsIff_emitField_of_occurrence wellFormed.frames occurs ?_).congr ?_
      · intro value written
        exact succeeds field.type value (legal.fields field member).type (holds value written)
      · rw [same]
        constructor
        · intro complete
          exact ⟨fun _ => present, fun other equal => Option.some.inj equal ▸ complete⟩
        · exact fun complete => complete.2 content rfl

end Fields

private theorem succeedsIff_emit_message
    (wellFormed : schema.WellFormed)
    {inside : TypeRef → Value → Prop}
    {index : Nat}
    {name : String}
    {message : MessageType}
    (found : schema.definition? index = some ⟨name, .message message⟩)
    (succeeds : ∀ type value, schema.IsFieldType type → inside type value →
      (schema.emit type value).SucceedsIff (schema.IsComplete value))
    {fields : FieldMap Value}
    (admitted : message.Admits inside fields) :
    (schema.emit (.definition index) (.object name fields)).SucceedsIff
      (schema.IsComplete (.object name fields)) := by
  have legal := wellFormed.messages name message (mem_of_definition? found)
  rw [emit_message found]
  refine (Emission.succeedsIff_concat_map fun field member =>
    succeedsIff_emitField wellFormed legal succeeds admitted name member).congr ?_
  rw [isComplete_object (wellFormed.definitionByName?_eq found)]
  constructor
  · intro each
    refine ⟨fun field member => (each field member).1, ?_⟩
    rintro ⟨key, content⟩ member
    obtain ⟨field, declared, rfl, -⟩ := admitted.declared _ member
    exact (each field declared).2 content (FieldMap.get?_of_mem admitted.distinct member)
  · rintro ⟨own, contents⟩ field member
    exact ⟨own field member, fun content found => contents _ (FieldMap.mem_of_get? found)⟩

/-- An admitted value can be written exactly when it is complete. -/
theorem succeedsIff_emit
    (wellFormed : schema.WellFormed)
    {levels : Nat}
    {type : TypeRef}
    {value : Value}
    (legal : schema.IsFieldType type)
    (admitted : schema.Admits levels type value) :
    (schema.emit type value).SucceedsIff (schema.IsComplete value) := by
  induction levels using Nat.strongRecOn generalizing type value with
  | _ levels inductionHypothesis =>
      cases type with
      | scalar type =>
          obtain ⟨bytes, written⟩ := admits_scalar.mp admitted
          rw [emit_scalar, written]
          exact Emission.succeedsIff_ofBytes bytes (isComplete_leaf (Scalar.isLeaf_of_encode written))
      | definition index =>
          obtain ⟨⟨name, kind⟩, found, unframed⟩ := legal
          cases kind with
          | message message =>
              obtain ⟨fewer, fields, rfl, rfl, inside⟩ := (admits_message found).mp admitted
              refine succeedsIff_emit_message wellFormed found ?_ inside
              intro type value legal admitted
              exact inductionHypothesis fewer (by omega) legal admitted
          | enum enum =>
              obtain ⟨number, rfl⟩ := (admits_enum found).mp admitted
              have legal := wellFormed.enums name enum (mem_of_definition? found)
              rw [emit_enum found, EnumType.numberOf_valueOf legal]
              exact Emission.succeedsIff_ofBytes _ (isComplete_leaf (enum.isLeaf_valueOf name number))
          | framed type => exact absurd rfl (unframed type)

end Schema

end ProtoWire
