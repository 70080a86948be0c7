import ProtoWire.Proofs.Codec.Recursion
import ProtoWire.Proofs.FieldMap
import ProtoWire.Proofs.Schema.Checking

/-!
Contract: what is written of a value depends on its content only. Names of types, the order and
the excess of fields, empty arrays and the spelling of enum values can be changed at any depth.

Owns:
- the places of values inside of a value, and the changes that keep the content;
- what a place shows of a value to the writers;
- the sizes and the emissions of values with the same content.

Does not own: the equations of sizes and emissions.
-/

namespace ProtoWire

open Outcome

/-! ### Same content -/

/-- Where a value stands, as far as a descriptor says what is expected there. -/
inductive Place where
  /-- A value of a type. -/
  | value (type : TypeRef)
  /-- The content of a repeated field with elements of a type. -/
  | elements (type : TypeRef)
  /-- No descriptor reaches here. -/
  | unread
deriving DecidableEq, Repr

namespace Place

/-- The field that a name means in an object at a place. -/
def field? (schema : Schema) (place : Place) (name : String) : Option Field :=
  match place with
  | .value type =>
      match (schema.layers type).core with
      | .message _ message => message.fieldByName? name
      | _ => none
  | _ => none

/-- The place of the content of a field. -/
def ofField (field : Field) : Place :=
  if field.isRepeated then .elements field.type else .value field.type

/-- The place of the content of an object under a name. -/
def content (schema : Schema) (place : Place) (name : String) : Place :=
  ((place.field? schema name).map ofField).getD .unread

/-- The place of the elements of an array. -/
def element : Place → Place
  | .elements type => .value type
  | _ => .unread

/-- The enum of which a value is expected. -/
def enum? (schema : Schema) : Place → Option EnumType
  | .value type =>
      match (schema.layers type).core with
      | .enum _ enum => some enum
      | _ => none
  | _ => none

end Place

/-- Values at a place with the same content: the changes that a writer must not notice, at any
depth, in any number and in either direction. -/
inductive SameContent (schema : Schema) : Place → Value → Value → Prop where
  | refl {place : Place} (value : Value) : SameContent schema place value value
  | symm {place : Place} {left right : Value}
      (same : SameContent schema place left right) :
      SameContent schema place right left
  | trans {place : Place} {left middle right : Value}
      (first : SameContent schema place left middle)
      (second : SameContent schema place middle right) :
      SameContent schema place left right
  /-- The name of the type of an object. -/
  | typeName {place : Place} (left right : String) (fields : FieldMap Value) :
      SameContent schema place (.object left fields) (.object right fields)
  /-- The name of the type of an enum value. -/
  | enumName {place : Place} (left right valueName : String) :
      SameContent schema place (.enum left valueName) (.enum right valueName)
  /-- The order of the fields. -/
  | order {place : Place} (typeName : String) {left right : FieldMap Value}
      (distinct : (FieldMap.keys left).Nodup)
      (perm : left.Perm right) :
      SameContent schema place (.object typeName left) (.object typeName right)
  /-- A field that the descriptor does not declare. -/
  | undeclared {place : Place} (typeName : String) {name : String} (content : Value)
      (front back : FieldMap Value)
      (foreign : place.field? schema name = none) :
      SameContent schema place
        (.object typeName (front ++ (name, content) :: back)) (.object typeName (front ++ back))
  /-- An empty array of a repeated field that is absent otherwise. -/
  | emptyArray {place : Place} (typeName : String) {name : String} {field : Field}
      (front back : FieldMap Value)
      (declared : place.field? schema name = some field)
      (repeated : field.isRepeated = true)
      (absent : name ∉ FieldMap.keys (front ++ back)) :
      SameContent schema place
        (.object typeName (front ++ (name, .array []) :: back))
        (.object typeName (front ++ back))
  /-- Two names of the same number. -/
  | alias {place : Place} {enum : EnumType} (left right : String) {leftName rightName : String}
      {number : Int32}
      (expected : place.enum? schema = some enum)
      (leftNumber : enum.numberOf? leftName = some number)
      (rightNumber : enum.numberOf? rightName = some number) :
      SameContent schema place (.enum left leftName) (.enum right rightName)
  /-- A name and its number. -/
  | number {place : Place} {enum : EnumType} (typeName : String) {valueName : String}
      {number : Int32}
      (expected : place.enum? schema = some enum)
      (meant : enum.numberOf? valueName = some number) :
      SameContent schema place (.enum typeName valueName) (.int32 number)
  /-- A change inside of a field. -/
  | inField {place : Place} (typeName : String) {name : String} {left right : Value}
      (front back : FieldMap Value)
      (same : SameContent schema (place.content schema name) left right) :
      SameContent schema place
        (.object typeName (front ++ (name, left) :: back))
        (.object typeName (front ++ (name, right) :: back))
  /-- A change inside of an element. -/
  | inElement {place : Place} {left right : Value} (front back : List Value)
      (same : SameContent schema place.element left right) :
      SameContent schema place
        (.array (front ++ left :: back)) (.array (front ++ right :: back))

/-! ### What the writers see -/

namespace Schema

variable {schema : Schema}

/-- The size of a value and what it writes. -/
def written (schema : Schema) (type : TypeRef) (value : Value) :
    Except WireError Nat × Emission :=
  (schema.size type value, schema.emit type value)

/-- What the writers see of values at a place is the same. -/
def Agree (schema : Schema) (place : Place) (left right : Value) : Prop :=
  match place with
  | .value type => schema.written type left = schema.written type right
  | .elements type =>
      left.kindName = right.kindName ∧
        left.asArray.map (schema.written type) = right.asArray.map (schema.written type)
  | .unread => left.kindName = right.kindName

theorem Agree.refl {place : Place} (value : Value) : schema.Agree place value value := by
  cases place with
  | value type => rfl
  | elements type => exact ⟨rfl, rfl⟩
  | unread => rfl

theorem Agree.symm {place : Place} {left right : Value}
    (agree : schema.Agree place left right) :
    schema.Agree place right left := by
  cases place with
  | value type => exact Eq.symm agree
  | elements type => exact ⟨agree.1.symm, agree.2.symm⟩
  | unread => exact Eq.symm agree

theorem Agree.trans {place : Place} {left middle right : Value}
    (first : schema.Agree place left middle)
    (second : schema.Agree place middle right) :
    schema.Agree place left right := by
  cases place with
  | value type => exact Eq.trans first second
  | elements type => exact ⟨first.1.trans second.1, first.2.trans second.2⟩
  | unread => exact Eq.trans first second

/-! ### One field -/

section Fields

variable
  {messageName : String}
  {field : Field}
  {left right : FieldMap Value}

/-- What a message writes for a field. -/
private def fieldWritten
    (schema : Schema)
    (messageName : String)
    (fields : FieldMap Value)
    (field : Field) :
    Except WireError Nat × Emission :=
  (schema.fieldSize schema.size messageName fields field,
    schema.emitField schema.size schema.emit messageName fields field)

private theorem fieldWritten_of_get?
    (same : FieldMap.get? left field.name = FieldMap.get? right field.name) :
    schema.fieldWritten messageName left field = schema.fieldWritten messageName right field := by
  have occurrences : schema.occurrence messageName left field =
      schema.occurrence messageName right field := by
    unfold occurrence
    rw [same]
  unfold fieldWritten fieldSize emitField
  rw [occurrences]

/-- Records are written alike if their values are. -/
private theorem records_of_written
    (field : Field)
    {lefts rights : List Value}
    (same : lefts.map (schema.written field.type) = rights.map (schema.written field.type)) :
    lefts.mapM (schema.recordSize schema.size field) =
        rights.mapM (schema.recordSize schema.size field) ∧
      lefts.map (schema.emitRecord schema.size schema.emit field) =
        rights.map (schema.emitRecord schema.size schema.emit field) := by
  constructor
  · apply mapM_of_map
    have sizes := congrArg (List.map fun parts => schema.recordSize (fun _ _ => parts.1) field
      (.bool false)) same
    rwa [List.map_map, List.map_map] at sizes
  · have emissions := congrArg (List.map fun parts => schema.emitRecord (fun _ _ => parts.1)
      (fun _ _ => parts.2) field (.bool false)) same
    rwa [List.map_map, List.map_map] at emissions

/-- Runs are written alike if their values are. -/
private theorem run_of_written
    {type : TypeRef}
    {lefts rights : List Value}
    (same : lefts.map (schema.written type) = rights.map (schema.written type)) :
    lefts.mapM (schema.size type) = rights.mapM (schema.size type) ∧
      lefts.map (schema.emit type) = rights.map (schema.emit type) := by
  constructor
  · apply mapM_of_map
    have sizes := congrArg (List.map Prod.fst) same
    rwa [List.map_map, List.map_map] at sizes
  · have emissions := congrArg (List.map Prod.snd) same
    rwa [List.map_map, List.map_map] at emissions

/-- What a field writes of an array whose values are written alike. -/
private theorem fieldWritten_of_arrays
    {lefts rights : List Value}
    (repeated : field.isRepeated = true)
    (leftFound : FieldMap.get? left field.name = some (.array lefts))
    (rightFound : FieldMap.get? right field.name = some (.array rights))
    (same : lefts.map (schema.written field.type) = rights.map (schema.written field.type)) :
    schema.fieldWritten messageName left field = schema.fieldWritten messageName right field := by
  cases lefts with
  | nil =>
      obtain rfl : rights = [] := List.map_eq_nil_iff.mp same.symm
      exact fieldWritten_of_get? (leftFound.trans rightFound.symm)
  | cons first others =>
      obtain ⟨second, more, rfl⟩ : ∃ second more, rights = second :: more := by
        cases rights with
        | nil => cases same
        | cons second more => exact ⟨second, more, rfl⟩
      by_cases packed : (field.packed && schema.wireType field.type != .lengthDelimited) = true
      · have leftOccurs : schema.occurrence messageName left field =
            .ok (.run (first :: others)) := by
          simp only [occurrence, leftFound, repeated, packed, if_true]
        have rightOccurs : schema.occurrence messageName right field =
            .ok (.run (second :: more)) := by
          simp only [occurrence, rightFound, repeated, packed, if_true]
        obtain ⟨sizes, emissions⟩ := run_of_written same
        unfold fieldWritten
        rw [fieldSize_of_run leftOccurs, fieldSize_of_run rightOccurs, emitField_of_run leftOccurs,
          emitField_of_run rightOccurs, sizes, emissions]
      · have leftOccurs : schema.occurrence messageName left field =
            .ok (.records (first :: others)) := by
          simp only [occurrence, leftFound, repeated, packed, if_true, if_false, Bool.false_eq_true]
        have rightOccurs : schema.occurrence messageName right field =
            .ok (.records (second :: more)) := by
          simp only [occurrence, rightFound, repeated, packed, if_true, if_false,
            Bool.false_eq_true]
        obtain ⟨sizes, emissions⟩ := records_of_written field same
        unfold fieldWritten
        rw [fieldSize_of_records leftOccurs, fieldSize_of_records rightOccurs,
          emitField_of_records leftOccurs, emitField_of_records rightOccurs, sizes, emissions]

private theorem isArray_of_kindName {value : Value} (kind : value.kindName = "array") :
    ∃ elements, value = .array elements := by
  cases value with
  | array elements => exact ⟨elements, rfl⟩
  | _ => simp [Value.kindName] at kind

private theorem occurrence_of_not_array
    {fields : FieldMap Value}
    {value : Value}
    (repeated : field.isRepeated = true)
    (found : FieldMap.get? fields field.name = some value)
    (kind : value.kindName ≠ "array") :
    schema.occurrence messageName fields field =
      .error (.typeMismatch ("repeated " ++ schema.typeName field.type) value.kindName) := by
  unfold occurrence
  rw [found]
  simp only [repeated, if_true]
  cases value with
  | array elements => exact absurd rfl kind
  | _ => rfl

/-- What a field writes depends on what the writers see of its content. -/
private theorem fieldWritten_of_agree
    {leftValue rightValue : Value}
    (leftFound : FieldMap.get? left field.name = some leftValue)
    (rightFound : FieldMap.get? right field.name = some rightValue)
    (agree : schema.Agree (Place.ofField field) leftValue rightValue) :
    schema.fieldWritten messageName left field = schema.fieldWritten messageName right field := by
  unfold Place.ofField at agree
  by_cases repeated : field.isRepeated = true
  · rw [if_pos repeated] at agree
    obtain ⟨kinds, contents⟩ := agree
    by_cases kind : leftValue.kindName = "array"
    · obtain ⟨lefts, rfl⟩ := isArray_of_kindName kind
      obtain ⟨rights, rfl⟩ := isArray_of_kindName (kinds.symm.trans kind)
      exact fieldWritten_of_arrays repeated leftFound rightFound contents
    · have leftOccurs : schema.occurrence messageName left field = _ :=
        occurrence_of_not_array repeated leftFound kind
      have rightOccurs : schema.occurrence messageName right field = _ :=
        occurrence_of_not_array repeated rightFound (kinds ▸ kind)
      rw [kinds] at leftOccurs
      unfold fieldWritten
      rw [fieldSize_of_error leftOccurs, fieldSize_of_error rightOccurs,
        emitField_of_error leftOccurs, emitField_of_error rightOccurs]
  · rw [if_neg repeated] at agree
    have single {fields : FieldMap Value} {value : Value}
        (found : FieldMap.get? fields field.name = some value) :
        schema.occurrence messageName fields field = .ok (.records [value]) := by
      simp only [occurrence, found, repeated, if_false, Bool.false_eq_true]
    have same : [leftValue].map (schema.written field.type) =
        [rightValue].map (schema.written field.type) := congrArg (fun part => [part]) agree
    obtain ⟨sizes, emissions⟩ := records_of_written field same
    unfold fieldWritten
    rw [fieldSize_of_records (single leftFound), fieldSize_of_records (single rightFound),
      emitField_of_records (single leftFound), emitField_of_records (single rightFound),
      sizes, emissions]

/-- A repeated field that is absent writes as much as one that is empty. -/
private theorem fieldWritten_of_empty
    (repeated : field.isRepeated = true)
    (absent : FieldMap.get? left field.name = none)
    (empty : FieldMap.get? right field.name = some (.array [])) :
    schema.fieldWritten messageName left field = schema.fieldWritten messageName right field := by
  have notRequired : field.isRequired = false := by
    rw [Field.isRepeated, beq_iff_eq] at repeated
    rw [Field.isRequired, repeated]
    rfl
  have leftOccurs : schema.occurrence messageName left field = .ok .nothing := by
    simp only [occurrence, absent, notRequired, if_false, Bool.false_eq_true]
  have rightOccurs : schema.occurrence messageName right field = .ok .nothing := by
    simp only [occurrence, empty, repeated, if_true]
  unfold fieldWritten
  rw [fieldSize_of_nothing leftOccurs, fieldSize_of_nothing rightOccurs,
    emitField_of_nothing leftOccurs, emitField_of_nothing rightOccurs]

end Fields

/-! ### One value -/

section Values

variable {type : TypeRef}

private theorem written_eq (schema : Schema) (type : TypeRef) (value : Value) :
    schema.written type value =
      (framesSize (schema.coreSize schema.size (schema.layers type).core value)
          (schema.layers type).frames,
        emitFrames (schema.coreSize schema.size (schema.layers type).core value)
          (schema.emitCore schema.size schema.emit (schema.layers type).core value)
          (schema.layers type).frames) := by
  unfold written
  rw [size_eq, emit_eq, layersSize_eq, emitLayers_eq]

private theorem written_of_core
    {left right : Value}
    (sizes : schema.coreSize schema.size (schema.layers type).core left =
      schema.coreSize schema.size (schema.layers type).core right)
    (emissions : schema.emitCore schema.size schema.emit (schema.layers type).core left =
      schema.emitCore schema.size schema.emit (schema.layers type).core right) :
    schema.written type left = schema.written type right := by
  rw [written_eq, written_eq, sizes, emissions]

/-- Objects are written alike if all fields are that their descriptor declares. -/
private theorem written_of_fields
    {leftName rightName : String}
    {left right : FieldMap Value}
    (same : ∀ messageName message, (schema.layers type).core = .message messageName message →
      ∀ field ∈ message.fields,
        schema.fieldWritten messageName left field = schema.fieldWritten messageName right field) :
    schema.written type (.object leftName left) =
      schema.written type (.object rightName right) := by
  apply written_of_core
  · cases core : (schema.layers type).core with
    | message messageName message =>
        rw [coreSize_object, coreSize_object]
        congr 1
        apply mapM_of_map
        exact List.map_congr_left fun field member =>
          (Prod.mk.inj (same messageName message core field member)).1
    | scalar type => cases type <;> rfl
    | _ => rfl
  · cases core : (schema.layers type).core with
    | message messageName message =>
        change Emission.concat _ = Emission.concat _
        congr 1
        exact List.map_congr_left fun field member =>
          (Prod.mk.inj (same messageName message core field member)).2
    | scalar type => cases type <;> rfl
    | _ => rfl

/-- Arrays are refused by every type. -/
private theorem written_array (lefts rights : List Value) :
    schema.written type (.array lefts) = schema.written type (.array rights) := by
  apply written_of_core
  · cases (schema.layers type).core with
    | scalar type => cases type <;> rfl
    | _ => rfl
  · cases (schema.layers type).core with
    | scalar type => cases type <;> rfl
    | _ => rfl

/-- Enum values are written by their numbers. -/
private theorem written_of_numbers
    {messageName : String}
    {enum : EnumType}
    {left right : Value}
    (expected : (schema.layers type).core = .enum messageName enum)
    (same : enum.numberOf messageName left = enum.numberOf messageName right) :
    schema.written type left = schema.written type right := by
  apply written_of_core
  · rw [expected, coreSize, coreSize, same]
  · rw [expected, emitCore, emitCore, same]

/-- The name of the type of an enum value is not written. -/
private theorem written_enumName (left right valueName : String) :
    schema.written type (.enum left valueName) = schema.written type (.enum right valueName) := by
  apply written_of_core
  · cases (schema.layers type).core with
    | scalar type => cases type <;> rfl
    | _ => rfl
  · cases (schema.layers type).core with
    | scalar type => cases type <;> rfl
    | _ => rfl

private theorem mem_of_core_message
    (sound : schema.HasSoundFrames)
    {name : String}
    {message : MessageType}
    (core : (schema.layers type).core = .message name message) :
    ⟨name, .message message⟩ ∈ schema.definitions := by
  cases type with
  | scalar type =>
      rw [layers, layersWithin_scalar] at core
      cases core
  | definition index =>
      rcases found : schema.definition? index with _ | ⟨full, other | enum | framed⟩
      · rw [layers, layersWithin_missing found] at core
        cases core
      · rw [layers, layersWithin_message found] at core
        cases core
        exact mem_of_definition? found
      · rw [layers, layersWithin_enum found] at core
        cases core
      · obtain ⟨-, innerName, innerMessage, inner⟩ :=
          sound _ (mem_of_definition? found) framed rfl
        rw [layers_framed_message found inner] at core
        cases core
        exact mem_of_definition? inner

end Values

/-! ### All changes -/

section Changes

variable {place : Place} {leftName rightName : String} {left right : FieldMap Value}

/-- Of an object, the writers see the fields that its descriptor declares. -/
private theorem WellFormed.agree_of_fields
    (wellFormed : schema.WellFormed)
    (same : ∀ messageName field, place.field? schema field.name = some field →
      schema.fieldWritten messageName left field = schema.fieldWritten messageName right field) :
    schema.Agree place (.object leftName left) (.object rightName right) := by
  cases place with
  | elements type => exact ⟨rfl, rfl⟩
  | unread => rfl
  | value type =>
      apply written_of_fields
      intro messageName message core field member
      apply same
      have legal := wellFormed.messages _ _ (mem_of_core_message wellFormed.frames core)
      simp only [Place.field?, core]
      exact MessageType.fieldByName?_of_mem legal.names member

private theorem exists_enum_of_expected {enum : EnumType}
    (expected : place.enum? schema = some enum) :
    ∃ type name, place = .value type ∧ (schema.layers type).core = .enum name enum := by
  cases place with
  | elements type => cases expected
  | unread => cases expected
  | value type =>
      cases core : (schema.layers type).core with
      | enum name other =>
          simp only [Place.enum?, core] at expected
          obtain rfl := Option.some.inj expected
          exact ⟨type, name, rfl, core⟩
      | _ => simp [Place.enum?, core] at expected

/-- A change inside of a field is seen at that field only. -/
private theorem WellFormed.agree_inField
    (wellFormed : schema.WellFormed)
    {typeName name : String}
    {before after : Value}
    (front back : FieldMap Value)
    (agree : schema.Agree (place.content schema name) before after) :
    schema.Agree place
      (.object typeName (front ++ (name, before) :: back))
      (.object typeName (front ++ (name, after) :: back)) := by
  apply wellFormed.agree_of_fields
  intro messageName field declared
  by_cases own : name = field.name
  · subst own
    cases earlier : FieldMap.get? front field.name with
    | some first =>
        apply fieldWritten_of_get?
        rw [FieldMap.get?_append, FieldMap.get?_append, earlier]
        rfl
    | none =>
        rw [Place.content, declared] at agree
        refine fieldWritten_of_agree ?_ ?_ agree
        · rw [FieldMap.get?_append, earlier, FieldMap.get?, if_pos rfl]
          rfl
        · rw [FieldMap.get?_append, earlier, FieldMap.get?, if_pos rfl]
          rfl
  · apply fieldWritten_of_get?
    rw [FieldMap.get?_append, FieldMap.get?_append, FieldMap.get?, FieldMap.get?, if_neg own,
      if_neg own]

private theorem get?_without
    {name other : String}
    (different : other ≠ name)
    (content : Value)
    (front back : FieldMap Value) :
    FieldMap.get? (front ++ (other, content) :: back) name =
      FieldMap.get? (front ++ back) name := by
  rw [FieldMap.get?_append, FieldMap.get?_append, FieldMap.get?, if_neg different]

/-- The writers see the same of values with the same content. -/
theorem WellFormed.agree_of_sameContent
    (wellFormed : schema.WellFormed)
    {first second : Value}
    (same : SameContent schema place first second) :
    schema.Agree place first second := by
  induction same with
  | refl value => exact .refl value
  | symm _ inductionHypothesis => exact inductionHypothesis.symm
  | trans _ _ firstHypothesis secondHypothesis => exact firstHypothesis.trans secondHypothesis
  | typeName left right fields => exact wellFormed.agree_of_fields fun _ _ _ => rfl
  | @enumName place left right valueName =>
      cases place with
      | value type => exact written_enumName left right valueName
      | elements type => exact ⟨rfl, rfl⟩
      | unread => rfl
  | order typeName distinct perm =>
      exact wellFormed.agree_of_fields fun _ field _ =>
        fieldWritten_of_get? (FieldMap.get?_perm distinct perm field.name)
  | undeclared typeName content front back foreign =>
      apply wellFormed.agree_of_fields
      intro messageName field declared
      apply fieldWritten_of_get?
      apply get?_without
      rintro rfl
      rw [foreign] at declared
      cases declared
  | @emptyArray place typeName name empty front back declared repeated absent =>
      apply wellFormed.agree_of_fields
      intro messageName field known
      by_cases own : name = field.name
      · subst own
        obtain rfl := Option.some.inj (known.symm.trans declared)
        have missing := FieldMap.get?_eq_none.mpr absent
        refine (fieldWritten_of_empty repeated missing ?_).symm
        rw [FieldMap.get?_append, Option.or_eq_none_iff] at missing
        rw [FieldMap.get?_append, missing.1, FieldMap.get?, if_pos rfl]
        rfl
      · exact fieldWritten_of_get? (get?_without own _ front back)
  | «alias» left right expected leftNumber rightNumber =>
      obtain ⟨type, name, rfl, core⟩ := exists_enum_of_expected expected
      apply written_of_numbers core
      simp only [EnumType.numberOf, leftNumber, rightNumber]
  | number typeName expected meant =>
      obtain ⟨type, name, rfl, core⟩ := exists_enum_of_expected expected
      apply written_of_numbers core
      simp only [EnumType.numberOf, meant]
  | inField typeName front back _ inductionHypothesis =>
      exact wellFormed.agree_inField front back inductionHypothesis
  | @inElement place before after front back _ inductionHypothesis =>
      cases place with
      | value type => exact written_array _ _
      | unread => rfl
      | elements type =>
          have element : schema.written type before = schema.written type after :=
            inductionHypothesis
          refine ⟨rfl, ?_⟩
          change (front ++ before :: back).map _ = (front ++ after :: back).map _
          rw [List.map_append, List.map_append, List.map_cons, List.map_cons, element]

/-- Values with the same content have the same size and write the same, bytes or error, as a bare
value and by the name of the type. -/
theorem WellFormed.encode_of_sameContent
    (wellFormed : schema.WellFormed)
    {type : TypeRef}
    {first second : Value}
    (same : SameContent schema (.value type) first second) :
    (schema.emit type first = schema.emit type second ∧
      schema.size type first = schema.size type second) ∧
    ∀ name, schema.resolve name = .ok type →
      schema.encode name first = schema.encode name second ∧
        schema.encodedSize name first = schema.encodedSize name second := by
  have agree : schema.written type first = schema.written type second :=
    wellFormed.agree_of_sameContent same
  obtain ⟨sizes, emissions⟩ := Prod.mk.inj agree
  refine ⟨⟨emissions, sizes⟩, fun name resolved => ?_⟩
  unfold encode encodedSize
  rw [resolved, ok_bind, ok_bind, ok_bind, ok_bind, sizes, emissions]
  exact ⟨rfl, rfl⟩

end Changes

def meadowColor : EnumType :=
  ⟨[⟨"RED", 0⟩, ⟨"CRIMSON", 0⟩, ⟨"BLUE", 1⟩]⟩

/-- A message with flowers, whose color is an enum with two names for one number. -/
def meadowSchema : Schema :=
  ⟨[⟨"Meadow", .message
      ⟨[⟨"title", 1, .scalar .string, .required, false⟩,
        ⟨"flowers", 2, .definition 1, .repeated, false⟩,
        ⟨"colors", 3, .definition 2, .repeated, true⟩], []⟩⟩,
    ⟨"Flower", .message
      ⟨[⟨"color", 1, .definition 2, .optional, false⟩,
        ⟨"leaves", 2, .scalar .sint32, .repeated, true⟩], []⟩⟩,
    ⟨"Color", .enum meadowColor⟩]⟩

def plainMeadow : Value :=
  .object "Meadow" [
    ("title", .string "south"),
    ("flowers", .array [.object "Flower" [("color", .int32 0)]]),
    ("colors", .array [.enum "Color" "RED"])]

/-- The same content in another order, with an excess field, an empty array and other names. -/
def wildMeadow : Value :=
  .object "" [
    ("colors", .array [.enum "" "CRIMSON"]),
    ("flowers", .array [.object "Rose" [("leaves", .array []), ("color", .enum "" "RED")]]),
    ("note", .array [.bool true]),
    ("title", .string "south")]

private theorem sameContent_rose :
    SameContent meadowSchema (.value (.definition 1))
      (.object "Rose" [("leaves", .array []), ("color", .enum "" "RED")])
      (.object "Flower" [("color", .int32 0)]) := by
  have named : SameContent meadowSchema (.value (.definition 1))
      (.object "Rose" [("leaves", .array []), ("color", .enum "" "RED")])
      (.object "Flower" [("leaves", .array []), ("color", .enum "" "RED")]) :=
    .typeName "Rose" "Flower" [("leaves", .array []), ("color", .enum "" "RED")]
  have declared : (Place.value (.definition 1)).field? meadowSchema "leaves" =
      some ⟨"leaves", 2, .scalar .sint32, .repeated, true⟩ := by decide
  have emptied : SameContent meadowSchema (.value (.definition 1))
      (.object "Flower" [("leaves", .array []), ("color", .enum "" "RED")])
      (.object "Flower" [("color", .enum "" "RED")]) :=
    .emptyArray "Flower" [] [("color", .enum "" "RED")] declared rfl (by decide)
  have expected : ((Place.value (.definition 1)).content meadowSchema "color").enum? meadowSchema =
      some meadowColor := by decide
  have meant : meadowColor.numberOf? "RED" = some 0 := by decide
  have numbered : SameContent meadowSchema (.value (.definition 1))
      (.object "Flower" [("color", .enum "" "RED")])
      (.object "Flower" [("color", .int32 0)]) :=
    .inField "Flower" [] [] (.number "" expected meant)
  exact named.trans (emptied.trans numbered)

private theorem sameContent_meadow :
    SameContent meadowSchema (.value (.definition 0)) wildMeadow plainMeadow := by
  have ordered : SameContent meadowSchema (.value (.definition 0)) wildMeadow
      (.object "" [
        ("title", .string "south"),
        ("note", .array [.bool true]),
        ("flowers", .array [.object "Rose" [("leaves", .array []), ("color", .enum "" "RED")]]),
        ("colors", .array [.enum "" "CRIMSON"])]) :=
    .order "" (by decide) (List.reverse_perm _).symm
  have foreign : (Place.value (.definition 0)).field? meadowSchema "note" = none := by decide
  have reduced : SameContent meadowSchema (.value (.definition 0)) _
      (.object "" [
        ("title", .string "south"),
        ("flowers", .array [.object "Rose" [("leaves", .array []), ("color", .enum "" "RED")]]),
        ("colors", .array [.enum "" "CRIMSON"])]) :=
    .undeclared "" (.array [.bool true]) [("title", .string "south")] _ foreign
  have renamed : SameContent meadowSchema (.value (.definition 0)) _
      (.object "Meadow" [
        ("title", .string "south"),
        ("flowers", .array [.object "Rose" [("leaves", .array []), ("color", .enum "" "RED")]]),
        ("colors", .array [.enum "" "CRIMSON"])]) :=
    .typeName "" "Meadow" _
  have flowers : SameContent meadowSchema (.value (.definition 0)) _
      (.object "Meadow" [
        ("title", .string "south"),
        ("flowers", .array [.object "Flower" [("color", .int32 0)]]),
        ("colors", .array [.enum "" "CRIMSON"])]) :=
    .inField "Meadow" [("title", .string "south")] _ (.inElement [] [] sameContent_rose)
  have expected : ((Place.value (.definition 0)).content meadowSchema "colors").element.enum?
      meadowSchema = some meadowColor := by decide
  have crimson : meadowColor.numberOf? "CRIMSON" = some 0 := by decide
  have red : meadowColor.numberOf? "RED" = some 0 := by decide
  have colors : SameContent meadowSchema (.value (.definition 0)) _ plainMeadow :=
    .inField "Meadow" [("title", .string "south"),
        ("flowers", .array [.object "Flower" [("color", .int32 0)]])] []
      (.inElement [] [] (.alias "" "Color" expected crimson red))
  exact ordered.trans (reduced.trans (renamed.trans (flowers.trans colors)))

/-- A meadow without the title that it needs. -/
def untitledMeadow : Value :=
  .object "" [("note", .int32 7), ("colors", .array [])]

private theorem sameContent_untitledMeadow :
    SameContent meadowSchema (.value (.definition 0)) untitledMeadow (.object "Meadow" []) := by
  have foreign : (Place.value (.definition 0)).field? meadowSchema "note" = none := by decide
  have reduced : SameContent meadowSchema (.value (.definition 0)) untitledMeadow
      (.object "" [("colors", .array [])]) :=
    .undeclared "" (.int32 7) [] [("colors", .array [])] foreign
  have declared : (Place.value (.definition 0)).field? meadowSchema "colors" =
      some ⟨"colors", 3, .definition 2, .repeated, true⟩ := by decide
  have emptied : SameContent meadowSchema (.value (.definition 0))
      (.object "" [("colors", .array [])]) (.object "" []) :=
    .emptyArray "" [] [] declared rfl (by decide)
  exact reduced.trans (emptied.trans (.typeName "" "Meadow" []))

/-- Two meadows that are written alike, and two that are refused alike. -/
theorem encode_of_sameContent_meadow :
    meadowSchema.WellFormed ∧
    SameContent meadowSchema (.value (.definition 0)) wildMeadow plainMeadow ∧
    meadowSchema.encode "Meadow" wildMeadow = meadowSchema.encode "Meadow" plainMeadow ∧
    meadowSchema.encode "Meadow" plainMeadow =
      .ok [10, 5, 115, 111, 117, 116, 104, 18, 2, 8, 0, 26, 1, 0] ∧
    SameContent meadowSchema (.value (.definition 0)) untitledMeadow (.object "Meadow" []) ∧
    meadowSchema.encode "Meadow" untitledMeadow =
      meadowSchema.encode "Meadow" (.object "Meadow" []) ∧
    meadowSchema.encode "Meadow" (.object "Meadow" []) =
      .error (.missingRequiredField "Meadow" "title") := by
  have wellFormed : meadowSchema.WellFormed := by decide
  have resolved : meadowSchema.resolve "Meadow" = .ok (.definition 0) :=
    eq_ok_of_toOption (by decide)
  have written := wellFormed.encode_of_sameContent sameContent_meadow
  have refused := wellFormed.encode_of_sameContent sameContent_untitledMeadow
  exact ⟨wellFormed, sameContent_meadow, (written.2 "Meadow" resolved).1,
    eq_ok_of_toOption (by decide +kernel), sameContent_untitledMeadow,
    (refused.2 "Meadow" resolved).1, rfl⟩

end Schema

end ProtoWire
