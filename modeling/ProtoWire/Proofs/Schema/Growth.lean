import ProtoWire.Proofs.Outcome
import ProtoWire.Proofs.Schema.WellFormed

/-!
Contract: schemas that grow by a field or by a definition. What grows under the rules obeys the
rules.

Owns:
- the definitions of a schema after a field was appended;
- one more field under the rules;
- one more framed definition under the rules.

Does not own: which fields and definitions sources add.
-/

namespace ProtoWire

open Outcome

/-! ### Adding fields -/

theorem MessageType.WellFormed.push
    {schema : Schema}
    {message : MessageType}
    {field : Field}
    (wellFormed : message.WellFormed schema)
    (legal : field.WellFormed schema)
    (freshTag : field.tag ∉ message.fields.map Field.tag)
    (freshName : field.name ∉ message.fields.map Field.name) :
    (message.push field).WellFormed schema where
  tags := Keys.nodup_append_singleton wellFormed.tags freshTag
  names := Keys.nodup_append_singleton wellFormed.names freshName
  fields := by
    intro other member
    rcases List.mem_append.mp member with before | added
    · exact wellFormed.fields other before
    · obtain rfl := List.mem_singleton.mp added
      exact legal
  ranges := wellFormed.ranges

/-- The fields of a list of additions that are meant for a message. -/
def additionsTo (name : String) (additions : List (String × Field)) : List Field :=
  (additions.filter fun addition => addition.1 == name).map Prod.snd

theorem additionsTo_other {name full : String} {field : Field} (other : name ≠ full) :
    additionsTo full [(name, field)] = [] := by
  rw [additionsTo, List.filter_cons, if_neg (fun same => other (eq_of_beq same))]
  rfl

theorem additionsTo_same {name : String} {field : Field} :
    additionsTo name [(name, field)] = [field] := by
  rw [additionsTo, List.filter_cons, if_pos (beq_self_eq_true name)]
  rfl

/-- A definition with the fields that are meant for it. -/
def Definition.extend (additions : List (String × Field)) (definition : Definition) : Definition :=
  match definition.kind with
  | .message type =>
      ⟨definition.name,
        .message { type with fields := type.fields ++ additionsTo definition.name additions }⟩
  | _ => definition

namespace Definition

theorem extend_of_not_mem {definition : Definition} {name : String} {field : Field}
    (other : name ≠ definition.name) :
    definition.extend [(name, field)] = definition := by
  obtain ⟨full, kind⟩ := definition
  cases kind with
  | message type =>
      simp only [extend, additionsTo_other other, List.append_nil]
  | enum type => rfl
  | framed type => rfl

theorem extend_message {name : String} {type : MessageType} {field : Field} :
    (Definition.mk name (.message type)).extend [(name, field)] =
      ⟨name, .message (type.push field)⟩ := by
  simp only [extend, additionsTo_same]
  rfl

theorem extend_eq_message
    {additions : List (String × Field)}
    {definition : Definition}
    {name : String}
    {message : MessageType}
    (extended : definition.extend additions = ⟨name, .message message⟩) :
    ∃ before, definition = ⟨name, .message before⟩ ∧
      message = { before with fields := before.fields ++ additionsTo name additions } := by
  obtain ⟨full, kind⟩ := definition
  cases kind with
  | message before =>
      cases extended
      exact ⟨before, rfl, rfl⟩
  | enum type => cases extended
  | framed type => cases extended

theorem extend_eq_enum
    {additions : List (String × Field)}
    {definition : Definition}
    {name : String}
    {enum : EnumType}
    (extended : definition.extend additions = ⟨name, .enum enum⟩) :
    definition = ⟨name, .enum enum⟩ := by
  obtain ⟨full, kind⟩ := definition
  cases kind with
  | message before => cases extended
  | enum type => exact extended
  | framed type => cases extended

end Definition

namespace Schema

variable {schema : Schema}

private theorem map_eq_set
    {f : Definition → Definition}
    {items : List Definition}
    {place : Nat}
    {item : Definition}
    (found : items[place]? = some item)
    (fixed : ∀ other content, items[other]? = some content → other ≠ place →
      f content = content) :
    items.map f = items.set place (f item) := by
  apply List.ext_getElem?
  intro other
  rw [List.getElem?_map]
  by_cases same : place = other
  · subst same
    obtain ⟨bound, -⟩ := List.getElem?_eq_some_iff.mp found
    rw [found, List.getElem?_set_self bound]
    rfl
  · rw [List.getElem?_set_ne same]
    cases inside : items[other]? with
    | none => rfl
    | some content =>
        rw [Option.map_some, fixed other content inside fun equal => same equal.symm]

/-- Under unique names, a field is added to every definition with its name, if that is a
message. -/
theorem pushField_eq
    (distinct : (schema.definitions.map Definition.name).Nodup)
    (name : String)
    (field : Field) :
    schema.pushField name field =
      ⟨schema.definitions.map (Definition.extend [(name, field)])⟩ := by
  cases place : schema.indexOf? name with
  | none =>
      have absent := indexOf?_eq_none.mp place
      have fixed : schema.definitions.map (Definition.extend [(name, field)]) =
          schema.definitions.map id := by
        apply List.map_congr_left
        intro definition member
        apply Definition.extend_of_not_mem
        rintro rfl
        exact absent (List.mem_map_of_mem member)
      unfold pushField
      rw [place, fixed, List.map_id]
  | some index =>
      obtain ⟨kind, found⟩ := definition?_of_indexOf? place
      have fixed : ∀ other content, schema.definitions[other]? = some content → other ≠ index →
          content.extend [(name, field)] = content := by
        intro other content inside different
        apply Definition.extend_of_not_mem
        rintro rfl
        have again := indexOf?_of_definition? distinct inside
        exact different (Option.some.inj (again.symm.trans place))
      rw [map_eq_set found fixed]
      cases kind with
      | message type => rw [pushField_of_indexOf? place found, Definition.extend_message]
      | enum type | framed type =>
          obtain ⟨bound, same⟩ := List.getElem?_eq_some_iff.mp found
          unfold pushField
          rw [place]
          simp only [found]
          change schema = ⟨schema.definitions.set index ⟨name, _⟩⟩
          rw [← same, List.set_getElem_self]

/-- A field under a new name and a new number, of a message that is found by its name. -/
theorem WellFormed.pushField
    (wellFormed : schema.WellFormed)
    {index : Nat}
    {name : String}
    {message : MessageType}
    {field : Field}
    (found : schema.definition? index = some ⟨name, .message message⟩)
    (legal : field.WellFormed schema)
    (freshTag : field.tag ∉ message.fields.map Field.tag)
    (freshName : field.name ∉ message.fields.map Field.name) :
    (schema.pushField name field).WellFormed := by
  have same := outline_pushField schema name field
  have shape := pushField_eq wellFormed.names name field
  have names := names_of_outline same
  constructor
  · rw [names]
    exact wellFormed.names
  · rw [names]
    exact wellFormed.keywords
  · intro full after member
    rw [shape] at member
    obtain ⟨definition, inside, extended⟩ := List.mem_map.mp member
    obtain ⟨before, rfl, rfl⟩ := Definition.extend_eq_message extended
    have beforeLegal := (wellFormed.messages full before inside).transport same
    by_cases target : name = full
    · subst target
      obtain ⟨other, content⟩ := List.getElem?_of_mem inside
      obtain ⟨rfl, kinds⟩ := eq_of_name wellFormed.names found content
      obtain rfl := DefinitionKind.message.inj kinds
      rw [additionsTo_same]
      exact beforeLegal.push (legal.transport same) freshTag freshName
    · rw [additionsTo_other target, List.append_nil]
      exact beforeLegal
  · intro full enum member
    rw [shape] at member
    obtain ⟨definition, inside, extended⟩ := List.mem_map.mp member
    obtain rfl := Definition.extend_eq_enum extended
    exact wellFormed.enums full enum inside
  · rw [← hasSoundFrames_outline, same, hasSoundFrames_outline]
    exact wellFormed.frames

/-! ### Registering definitions -/

theorem register_eq_ok {name : String} {kind : DefinitionKind} {extended : Schema} :
    schema.register name kind = .ok extended ↔
      name ∉ schema.definitions.map Definition.name ∧ Scalar.ofName? name = none ∧
        extended = ⟨schema.definitions ++ [⟨name, kind⟩]⟩ := by
  unfold register
  rw [← indexOf?_eq_none]
  cases schema.indexOf? name <;> cases Scalar.ofName? name <;> simp [eq_comm]

/-- A name that is taken is refused. -/
theorem register_of_mem {name : String} (kind : DefinitionKind)
    (taken : name ∈ schema.definitions.map Definition.name) :
    schema.register name kind = .error (.duplicateType name) := by
  have place : (schema.indexOf? name).isSome = true := by
    rw [Option.isSome_iff_ne_none]
    exact fun free => indexOf?_eq_none.mp free taken
  rw [register, place, Bool.true_or, if_pos rfl]

/-- The definitions in front stay where they are. -/
theorem definition?_append
    {index : Nat}
    {definition : Definition}
    (found : schema.definition? index = some definition)
    (added : List Definition) :
    (Schema.mk (schema.definitions ++ added)).definition? index = some definition := by
  obtain ⟨bound, same⟩ := List.getElem?_eq_some_iff.mp found
  change (schema.definitions ++ added)[index]? = some definition
  rw [List.getElem?_append_left bound]
  exact found

end Schema

theorem Field.WellFormed.append
    {schema : Schema}
    {field : Field}
    {added : List Definition}
    (wellFormed : field.WellFormed schema) :
    field.WellFormed ⟨schema.definitions ++ added⟩ := by
  have legal := wellFormed.type
  have packed := wellFormed.packed
  obtain ⟨name, tag, type, label, run⟩ := field
  cases type with
  | scalar scalar => exact ⟨wellFormed.positive, wellFormed.bounded, trivial, packed⟩
  | definition index =>
      obtain ⟨definition, found, unframed⟩ := legal
      have again := Schema.definition?_append found added
      refine ⟨wellFormed.positive, wellFormed.bounded, ⟨definition, again, unframed⟩, ?_⟩
      simp only [Schema.wireType, found, again] at packed ⊢
      exact packed

theorem MessageType.WellFormed.append
    {schema : Schema}
    {message : MessageType}
    {added : List Definition}
    (wellFormed : message.WellFormed schema) :
    message.WellFormed ⟨schema.definitions ++ added⟩ where
  tags := wellFormed.tags
  names := wellFormed.names
  fields := fun field member => (wellFormed.fields field member).append
  ranges := wellFormed.ranges

namespace Schema

variable {schema : Schema}

/-- A new definition is found under its name. -/
theorem resolve_of_register
    {name : String}
    {kind : DefinitionKind}
    {extended : Schema}
    (registered : schema.register name kind = .ok extended) :
    extended.resolve name = .ok (.definition schema.definitions.length) ∧
      extended.definition? schema.definitions.length = some ⟨name, kind⟩ := by
  obtain ⟨-, keyword, rfl⟩ := register_eq_ok.mp registered
  have place : (Schema.mk (schema.definitions ++ [⟨name, kind⟩])).indexOf? name =
      some schema.definitions.length := by
    simp [indexOf?, List.zipIdx_append, List.filter_append]
  refine ⟨?_, List.getElem?_concat_length⟩
  rw [resolve, keyword]
  simp only [place]

/-- Frames around a message are one more definition. -/
theorem registerFramed_of_message
    {name inner : String}
    {index : Nat}
    {message : MessageType}
    {lengthType : Option String}
    {length : Option Nat}
    {framing : Framing}
    (configured : Framing.ofConfig lengthType length = .ok framing)
    (resolved : schema.resolve inner = .ok (.definition index))
    (found : schema.definition? index = some ⟨inner, .message message⟩) :
    schema.registerFramed name inner lengthType length =
      schema.register name (.framed ⟨index, framing⟩) := by
  rw [registerFramed, configured, ok_bind, resolved, ok_bind]
  simp only [found]
  rfl

/-- A successful registration of frames adds frames of the configured framing around a message. -/
theorem registerFramed_eq_ok
    {name inner : String}
    {lengthType : Option String}
    {length : Option Nat}
    {extended : Schema}
    (registered : schema.registerFramed name inner lengthType length = .ok extended) :
    ∃ index framing message,
      Framing.ofConfig lengthType length = .ok framing ∧
        schema.definition? index = some ⟨inner, .message message⟩ ∧
          schema.register name (.framed ⟨index, framing⟩) = .ok extended := by
  unfold registerFramed at registered
  obtain ⟨framing, configured, registered⟩ := bind_eq_ok.mp registered
  obtain ⟨type, resolved, registered⟩ := bind_eq_ok.mp registered
  cases type with
  | scalar type => cases registered
  | definition index =>
      obtain ⟨kind, found⟩ := definition?_of_resolve resolved
      simp only [found, Option.bind_some] at registered
      cases kind with
      | message message =>
          exact ⟨index, framing, message, configured, found, registered⟩
      | enum type => cases registered
      | framed type => cases registered

theorem WellFormed.registerFramed
    (wellFormed : schema.WellFormed)
    {name inner : String}
    {lengthType : Option String}
    {length : Option Nat}
    {extended : Schema}
    (registered : schema.registerFramed name inner lengthType length = .ok extended) :
    extended.WellFormed := by
  obtain ⟨index, framing, message, configured, found, registered⟩ := registerFramed_eq_ok registered
  have sound := Framing.isSound_of_ofConfig configured
  obtain ⟨fresh, keyword, rfl⟩ := register_eq_ok.mp registered
  constructor
  · exact Keys.nodup_append_singleton wellFormed.names fresh
  · intro other member
    rw [List.map_append] at member
    rcases List.mem_append.mp member with before | added
    · exact wellFormed.keywords other before
    · obtain rfl := List.mem_singleton.mp added
      exact keyword
  · intro full type member
    rcases List.mem_append.mp member with before | added
    · exact (wellFormed.messages full type before).append
    · cases List.mem_singleton.mp added
  · intro full enum member
    rcases List.mem_append.mp member with before | added
    · exact wellFormed.enums full enum before
    · cases List.mem_singleton.mp added
  · intro definition member type framed
    rcases List.mem_append.mp member with before | added
    · obtain ⟨framingSound, innerName, innerMessage, place⟩ :=
        wellFormed.frames definition before type framed
      exact ⟨framingSound, innerName, innerMessage, definition?_append place _⟩
    · obtain rfl := List.mem_singleton.mp added
      obtain rfl : FramedType.mk index framing = type := DefinitionKind.framed.inj framed
      exact ⟨sound, inner, message, definition?_append found _⟩

end Schema

end ProtoWire
