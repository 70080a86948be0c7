import ProtoWire.Proofs.Codec.Canonical
import ProtoWire.Proofs.Codec.Reading
import ProtoWire.Proofs.Schema.WellFormed

/-!
Contract: the values that readers build. An object holds declared fields only, each at most once:
an array in a repeated field, a single value in any other field.

Owns:
- the values that a type admits, up to a depth of messages;
- that every value that is read is admitted by its type.

Does not own: what is written for admitted values.
-/

namespace ProtoWire

/-! ### Admitted values -/

/-- What a field holds: an array if it is repeated, else a single value. -/
def Field.Admits (inside : TypeRef → Value → Prop) (field : Field) (content : Value) : Prop :=
  if field.isRepeated then
    ∃ elements, content = .array elements ∧ ∀ element ∈ elements, inside field.type element
  else inside field.type content

/-- What a message holds: declared fields, each at most once. -/
structure MessageType.Admits
    (inside : TypeRef → Value → Prop)
    (message : MessageType)
    (fields : FieldMap Value) : Prop where
  distinct : (FieldMap.keys fields).Nodup
  declared : ∀ entry ∈ fields, ∃ field ∈ message.fields,
    field.name = entry.1 ∧ field.Admits inside entry.2

/-- What stands inside of all frames. -/
def Core.Admits (body : MessageType → FieldMap Value → Prop) (core : Core) (value : Value) : Prop :=
  match core with
  | .scalar type => ∃ bytes, type.encode value = .ok bytes
  | .enum name type => ∃ number, value = type.valueOf name number
  | .message name type => ∃ fields, value = .object name fields ∧ body type fields
  | .missing _ => False

/-- The values of a type in which messages nest at most `levels` deep. -/
def Schema.Admits (schema : Schema) : Nat → TypeRef → Value → Prop
  | 0, type, value => (schema.layers type).core.Admits (fun _ _ => False) value
  | levels + 1, type, value =>
      (schema.layers type).core.Admits (MessageType.Admits (schema.Admits levels)) value

namespace Schema

variable {schema : Schema}

theorem admits_scalar {levels : Nat} {type : Scalar} {value : Value} :
    schema.Admits levels (.scalar type) value ↔ ∃ bytes, type.encode value = .ok bytes := by
  cases levels <;> (rw [Admits, layers, layersWithin_scalar]; rfl)

theorem admits_enum {levels index : Nat} {name : String} {enum : EnumType} {value : Value}
    (found : schema.definition? index = some ⟨name, .enum enum⟩) :
    schema.Admits levels (.definition index) value ↔
      ∃ number, value = enum.valueOf name number := by
  cases levels <;> (rw [Admits, layers, layersWithin_enum found]; rfl)

/-- A message takes up a level. -/
theorem admits_message {levels index : Nat} {name : String} {message : MessageType} {value : Value}
    (found : schema.definition? index = some ⟨name, .message message⟩) :
    schema.Admits levels (.definition index) value ↔
      ∃ fewer fields, levels = fewer + 1 ∧ value = .object name fields ∧
        message.Admits (schema.Admits fewer) fields := by
  cases levels with
  | zero =>
      rw [Admits, layers, layersWithin_message found]
      simp [Core.Admits]
  | succ fewer =>
      rw [Admits, layers, layersWithin_message found]
      simp [Core.Admits]

theorem admits_framed
    (sound : schema.HasSoundFrames)
    {levels index : Nat}
    {name : String}
    {type : FramedType}
    {value : Value}
    (found : schema.definition? index = some ⟨name, .framed type⟩) :
    schema.Admits levels (.definition index) value ↔
      schema.Admits levels (.definition type.inner) value := by
  obtain ⟨-, innerName, message, inner⟩ := sound _ (mem_of_definition? found) type rfl
  cases levels <;>
    rw [Admits, Admits, layers_framed_message found inner, layers, layersWithin_message inner]

end Schema

/-! ### Records -/

/-- What a record may do to the fields of a message. -/
def Update.Admits (inside : TypeRef → Value → Prop) (message : MessageType) : Update → Prop
  | .skip => True
  | .set name value =>
      ∃ field ∈ message.fields, field.name = name ∧ field.isRepeated = false ∧
        inside field.type value
  | .extend name values =>
      ∃ field ∈ message.fields, field.name = name ∧ field.isRepeated = true ∧
        ∀ value ∈ values, inside field.type value

section Records

variable
  {inside : TypeRef → Value → Prop}
  {message : MessageType}

theorem Field.admits_update {field : Field} {value : Value}
    (member : field ∈ message.fields)
    (admitted : inside field.type value) :
    (field.update value).Admits inside message := by
  unfold Field.update
  cases repeated : field.isRepeated with
  | false => exact ⟨field, member, rfl, repeated, admitted⟩
  | true =>
      refine ⟨field, member, rfl, repeated, ?_⟩
      intro other same
      obtain rfl := List.mem_singleton.mp same
      exact admitted

theorem MessageType.admits_nil : message.Admits inside ([] : FieldMap Value) :=
  ⟨List.nodup_nil, fun _ member => nomatch member⟩

theorem MessageType.eq_of_name
    (names : (message.fields.map Field.name).Nodup)
    {first second : Field}
    (firstMember : first ∈ message.fields)
    (secondMember : second ∈ message.fields)
    (same : first.name = second.name) :
    first = second := by
  have byFirst := MessageType.fieldByName?_of_mem names firstMember
  have bySecond := MessageType.fieldByName?_of_mem names secondMember
  rw [same] at byFirst
  exact Option.some.inj (byFirst.symm.trans bySecond)

/-- What admitted fields hold under the name of a declared field. -/
theorem MessageType.Admits.content
    (names : (message.fields.map Field.name).Nodup)
    {fields : FieldMap Value}
    (admitted : message.Admits inside fields)
    {field : Field}
    (member : field ∈ message.fields)
    {content : Value}
    (found : FieldMap.get? fields field.name = some content) :
    field.Admits inside content := by
  obtain ⟨other, otherMember, name, admits⟩ := admitted.declared _ (FieldMap.mem_of_get? found)
  obtain rfl := MessageType.eq_of_name names otherMember member name
  exact admits

/-- The elements that a repeated field has already. -/
private theorem admits_elements
    (names : (message.fields.map Field.name).Nodup)
    {fields : FieldMap Value}
    (admitted : message.Admits inside fields)
    {field : Field}
    (member : field ∈ message.fields)
    (repeated : field.isRepeated = true) :
    ∀ element ∈ FieldMap.elements fields field.name, inside field.type element := by
  unfold FieldMap.elements
  cases found : FieldMap.get? fields field.name with
  | none => exact fun _ member => nomatch member
  | some content =>
      have admits := admitted.content names member found
      rw [Field.Admits, repeated] at admits
      obtain ⟨elements, rfl, each⟩ := admits
      exact each

/-- A record that may stand in a message keeps its fields admitted. -/
theorem MessageType.Admits.apply
    (names : (message.fields.map Field.name).Nodup)
    {fields : FieldMap Value}
    (admitted : message.Admits inside fields)
    {update : Update}
    (legal : update.Admits inside message) :
    message.Admits inside (update.apply fields) := by
  cases update with
  | skip => exact admitted
  | set name value =>
      obtain ⟨field, member, rfl, singular, holds⟩ := legal
      refine ⟨FieldMap.nodup_keys_insert admitted.distinct field.name value, ?_⟩
      intro entry inserted
      rcases FieldMap.mem_insert inserted with rfl | before
      · refine ⟨field, member, rfl, ?_⟩
        rw [Field.Admits, singular]
        exact holds
      · exact admitted.declared entry before
  | extend name values =>
      obtain ⟨field, member, rfl, repeated, holds⟩ := legal
      refine ⟨FieldMap.nodup_keys_insert admitted.distinct field.name _, ?_⟩
      intro entry inserted
      rcases FieldMap.mem_insert inserted with rfl | before
      · refine ⟨field, member, rfl, ?_⟩
        rw [Field.Admits, repeated]
        refine ⟨_, rfl, ?_⟩
        intro element present
        rcases List.mem_append.mp present with old | new
        · exact admits_elements names admitted member repeated element old
        · exact holds element new
      · exact admitted.declared entry before

theorem MessageType.Admits.foldl
    (names : (message.fields.map Field.name).Nodup)
    {fields : FieldMap Value}
    (admitted : message.Admits inside fields)
    {updates : List Update}
    (legal : ∀ update ∈ updates, update.Admits inside message) :
    message.Admits inside (updates.foldl Update.apply fields) := by
  induction updates generalizing fields with
  | nil => exact admitted
  | cons update others inductionHypothesis =>
      apply inductionHypothesis (admitted.apply names (legal update List.mem_cons_self))
      exact fun other member => legal other (List.mem_cons_of_mem update member)

end Records

/-! ### Readers -/

theorem Scalar.yields_encodable (type : Scalar) :
    type.read.Yields fun value => ∃ bytes, type.encode value = .ok bytes := by
  cases type <;> exact Reader.yields_map fun _ => ⟨_, rfl⟩

theorem EnumType.yields_valueOf (name : String) (enum : EnumType) :
    (enum.read name).Yields fun value => ∃ number, value = enum.valueOf name number := by
  rw [EnumType.read_eq]
  exact Reader.yields_map fun number => ⟨number, rfl⟩

namespace Schema

variable {schema : Schema}

/-- If single values are admitted, so is every record of a field. -/
theorem yields_readField
    {inside : TypeRef → Value → Prop}
    {readValue : TypeRef → Reader Value}
    (yields : ∀ type, (readValue type).Yields (inside type))
    (messageName : String)
    {message : MessageType}
    {field : Field}
    (member : field ∈ message.fields)
    (found : WireType) :
    (schema.readField readValue messageName field found).Yields
      (Update.Admits inside message) := by
  refine readField_cases (motive := fun _ reader => reader.Yields (Update.Admits inside message))
    ?run ?delimited ?bare ?mismatch found
  case run =>
    intro repeated _
    apply Reader.yields_bind
    intro payload
    exact ((yields field.type).many.within payload).bind fun values admitted =>
      Reader.yields_pure ⟨field, member, rfl, repeated, admitted⟩
  case delimited =>
    intro _
    apply Reader.yields_bind
    intro payload
    exact ((yields field.type).within payload).bind fun value admitted =>
      Reader.yields_pure (field.admits_update member admitted)
  case bare =>
    intro _
    exact (yields field.type).bind fun value admitted =>
      Reader.yields_pure (field.admits_update member admitted)
  case mismatch => exact fun _ _ _ => Reader.yields_throw _

theorem yields_readRecord
    {inside : TypeRef → Value → Prop}
    {readValue : TypeRef → Reader Value}
    (yields : ∀ type, (readValue type).Yields (inside type))
    (messageName : String)
    (message : MessageType) :
    (schema.readRecord readValue messageName message).Yields (Update.Admits inside message) := by
  apply Reader.yields_bind
  rintro ⟨tag, found⟩
  cases named : message.fieldByTag? tag with
  | none =>
      simp only [named]
      apply Reader.yields_bind
      intro _
      exact Reader.yields_pure trivial
  | some field =>
      simp only [named]
      exact yields_readField yields messageName (MessageType.mem_of_fieldByTag? named).1 found

private theorem yields_readBody
    (wellFormed : schema.WellFormed)
    {levels index : Nat}
    {name : String}
    {message : MessageType}
    (found : schema.definition? index = some ⟨name, .message message⟩)
    (yields : ∀ fewer, levels = fewer + 1 → ∀ type,
      (schema.readWithin fewer type).Yields (schema.Admits fewer type)) :
    (schema.readBody levels name message).Yields (schema.Admits levels (.definition index)) := by
  cases levels with
  | zero => exact Reader.yields_throw _
  | succ fewer =>
      have names := (wellFormed.messages name message (mem_of_definition? found)).names
      have records : (schema.readRecord (schema.readWithin fewer) name message).Yields _ :=
        yields_readRecord (yields fewer rfl) name message
      exact records.many.bind fun updates legal => Reader.yields_pure <|
        (admits_message found).mpr ⟨fewer, _, rfl, rfl, MessageType.admits_nil.foldl names legal⟩

/-- Every value that is read is admitted by its type, at the depth that the reader follows. -/
theorem yields_readWithin
    (wellFormed : schema.WellFormed)
    (levels : Nat)
    (type : TypeRef) :
    (schema.readWithin levels type).Yields (schema.Admits levels type) := by
  induction levels using Nat.strongRecOn generalizing type with
  | _ levels inductionHypothesis =>
      have yields (fewer : Nat) (same : levels = fewer + 1) (type : TypeRef) :=
        inductionHypothesis fewer (by omega) type
      cases type with
      | scalar type =>
          rw [readWithin_scalar]
          intro cursor value after returned
          exact admits_scalar.mpr (type.yields_encodable cursor value after returned)
      | definition index =>
          rcases found : schema.definition? index with _ | ⟨name, message | enum | framed⟩
          · rw [readWithin_missing levels found]
            exact Reader.yields_throw _
          · rw [readWithin_message levels found]
            exact yields_readBody wellFormed found yields
          · rw [readWithin_enum levels found]
            intro cursor value after returned
            exact (admits_enum found).mpr (enum.yields_valueOf name cursor value after returned)
          · obtain ⟨-, innerName, message, inner⟩ :=
              wellFormed.frames _ (mem_of_definition? found) framed rfl
            rw [readWithin_framed wellFormed.frames levels found]
            apply Reader.yields_bind
            intro payload
            apply Reader.Yields.within
            intro cursor value after returned
            rw [readWithin_message levels inner] at returned
            exact (admits_framed wellFormed.frames found).mpr
              (yields_readBody wellFormed inner yields cursor value after returned)

/-- A decoded value is admitted by the type that it was decoded as. -/
theorem WellFormed.admits_of_decode
    (wellFormed : schema.WellFormed)
    {name : String}
    {type : TypeRef}
    (resolved : schema.resolve name = .ok type)
    {bytes : List UInt8}
    {value : Value}
    {consumed : Nat}
    (decoded : schema.decode name bytes = .ok (value, consumed)) :
    schema.Admits (maxDepth + 1) type value := by
  obtain ⟨cursor, returned, -⟩ := (decode_eq_ok resolved).mp decoded
  exact yields_readWithin wellFormed (maxDepth + 1) type _ value cursor returned

end Schema

end ProtoWire
