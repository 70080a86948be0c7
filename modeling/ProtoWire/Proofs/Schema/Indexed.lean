import ProtoWire.Proofs.Schema.WellFormed
import ProtoWire.Schema.Indexed

/-!
Contract: the maps of an indexed schema agree with its lists. Look-ups by the maps return what a
search of the lists returns, and every operation ends as it does on schemas without maps.

Owns:
- the agreement of messages, enums and schemas with their maps;
- the look-ups of an indexed schema;
- agreement after a field or a definition was added;
- runs that end alike with maps and without them.

Does not own: compiling sources, or the rules on schemas.
-/

namespace ProtoWire

open Places

/-! ### Messages and enums -/

/-- The maps of a message find its fields. -/
structure IndexedMessage.Agrees (message : IndexedMessage) : Prop where
  tags : FindsLast message.placesByTag Field.tag message.fields
  names : FindsLast message.placesByName Field.name message.fields

namespace IndexedMessage

variable {message : IndexedMessage}

theorem agrees_bare (ranges : List (Nat × Nat)) : (bare ranges).Agrees :=
  ⟨findsLast_nil Field.tag, findsLast_nil Field.name⟩

theorem Agrees.push (agrees : message.Agrees) (field : Field) : (message.push field).Agrees :=
  ⟨agrees.tags.concat field, agrees.names.concat field⟩

theorem ofType_eq (type : MessageType) :
    (ofType type).toMessageType = type ∧ (ofType type).Agrees := by
  have pushed (fields : List Field) (message : IndexedMessage) (agrees : message.Agrees) :
      (fields.foldl IndexedMessage.push message).toMessageType =
          { message.toMessageType with fields := message.fields ++ fields } ∧
        (fields.foldl IndexedMessage.push message).Agrees := by
    induction fields generalizing message with
    | nil => exact ⟨by rw [List.append_nil]; rfl, agrees⟩
    | cons field others inductionHypothesis =>
        obtain ⟨same, after⟩ := inductionHypothesis (message.push field) (agrees.push field)
        refine ⟨?_, after⟩
        rw [List.foldl_cons, same]
        simp [IndexedMessage.push, MessageType.push]
  exact pushed type.fields (bare type.extensionRanges) (agrees_bare _)

theorem Agrees.fieldByTag?_eq (agrees : message.Agrees) (tag : Nat) :
    message.fieldByTag? tag = message.toMessageType.fieldByTag? tag :=
  agrees.tags.item tag

theorem Agrees.fieldByName?_eq (agrees : message.Agrees) (name : String) :
    message.fieldByName? name = message.toMessageType.fieldByName? name :=
  agrees.names.item name

end IndexedMessage

/-- The maps of an enum find its values, and the first of those with one number. -/
structure IndexedEnum.Agrees (enum : IndexedEnum) : Prop where
  numbers : FindsFirst enum.placesByNumber EnumValue.number enum.values
  names : FindsLast enum.placesByName EnumValue.name enum.values

namespace IndexedEnum

variable {enum : IndexedEnum}

theorem Agrees.push (agrees : enum.Agrees) (value : EnumValue) : (enum.push value).Agrees :=
  ⟨agrees.numbers.concat value, agrees.names.concat value⟩

theorem ofType_eq (type : EnumType) : (ofType type).toEnumType = type ∧ (ofType type).Agrees := by
  have pushed (values : List EnumValue) (enum : IndexedEnum) (agrees : enum.Agrees) :
      (values.foldl IndexedEnum.push enum).values = enum.values ++ values ∧
        (values.foldl IndexedEnum.push enum).Agrees := by
    induction values generalizing enum with
    | nil => exact ⟨(List.append_nil _).symm, agrees⟩
    | cons value others inductionHypothesis =>
        obtain ⟨same, after⟩ := inductionHypothesis (enum.push value) (agrees.push value)
        refine ⟨?_, after⟩
        rw [List.foldl_cons, same]
        simp [IndexedEnum.push]
  obtain ⟨same, agrees⟩ :=
    pushed type.values .empty ⟨findsFirst_nil EnumValue.number, findsLast_nil EnumValue.name⟩
  exact ⟨congrArg EnumType.mk same, agrees⟩

theorem Agrees.nameOf?_eq (agrees : enum.Agrees) (number : Int32) :
    enum.nameOf? number = enum.toEnumType.nameOf? number := by
  rw [nameOf?, agrees.numbers.item]
  rfl

theorem Agrees.numberOf?_eq (agrees : enum.Agrees) (name : String) :
    enum.numberOf? name = enum.toEnumType.numberOf? name := by
  rw [numberOf?, agrees.names.item]
  rfl

end IndexedEnum

def IndexedKind.Agrees : IndexedKind → Prop
  | .message type => type.Agrees
  | .enum type => type.Agrees
  | .framed _ => True

/-- What is indexed is what it was made of, and its maps agree. -/
theorem IndexedKind.ofKind_eq (kind : DefinitionKind) :
    (ofKind kind).plain = kind ∧ (ofKind kind).Agrees := by
  cases kind with
  | message type =>
      obtain ⟨same, agrees⟩ := IndexedMessage.ofType_eq type
      exact ⟨congrArg DefinitionKind.message same, agrees⟩
  | enum type =>
      obtain ⟨same, agrees⟩ := IndexedEnum.ofType_eq type
      exact ⟨congrArg DefinitionKind.enum same, agrees⟩
  | framed type => exact ⟨rfl, trivial⟩

/-! ### Schemas -/

/-- Every definition knows its place, and all maps of a schema agree with the lists. -/
structure IndexedSchema.Agrees (schema : IndexedSchema) : Prop where
  indices : ∀ place definition, schema.definition? place = some definition →
    definition.index = place
  places : FindsLast schema.places IndexedDefinition.name schema.definitions
  kinds : ∀ definition ∈ schema.definitions, definition.kind.Agrees

namespace IndexedSchema

variable {schema : IndexedSchema}

theorem definition?_plain (schema : IndexedSchema) (index : Nat) :
    schema.plain.definition? index = (schema.definition? index).map IndexedDefinition.plain :=
  List.getElem?_map

theorem names_plain (schema : IndexedSchema) :
    schema.plain.definitions.map Definition.name =
      schema.definitions.map IndexedDefinition.name :=
  List.map_map

theorem message?_plain (definition : IndexedDefinition) :
    definition.plain.message? = definition.message?.map IndexedMessage.toMessageType := by
  obtain ⟨name, index, _ | _ | _⟩ := definition <;> rfl

/-! ### Look-ups -/

theorem Agrees.place_eq (agrees : schema.Agrees) (name : String) :
    schema.places[name]? = schema.plain.indexOf? name := by
  rw [Schema.indexOf?_eq_last?]
  exact agrees.places.of_map schema.names_plain name

theorem Agrees.definitionByName?_eq (agrees : schema.Agrees) (name : String) :
    schema.plain.definitionByName? name =
      (schema.definitionByName? name).map IndexedDefinition.plain := by
  rw [Schema.definitionByName?, definitionByName?, agrees.place_eq]
  cases schema.plain.indexOf? name with
  | none => rfl
  | some index => exact schema.definition?_plain index

/-- A definition that is found by its name says where it stands. -/
theorem Agrees.index_eq (agrees : schema.Agrees) (name : String) :
    (schema.definitionByName? name).map IndexedDefinition.index = schema.plain.indexOf? name := by
  rw [definitionByName?, agrees.place_eq]
  cases place : schema.plain.indexOf? name with
  | none => rfl
  | some index =>
      obtain ⟨kind, found⟩ := Schema.definition?_of_indexOf? place
      rw [definition?_plain] at found
      obtain ⟨definition, inside, -⟩ := Option.map_eq_some_iff.mp found
      rw [Option.bind_some, inside, Option.map_some, agrees.indices index definition inside]

theorem Agrees.resolve_eq (agrees : schema.Agrees) (name : String) :
    schema.resolve name = schema.plain.resolve name := by
  have place := agrees.place_eq name
  unfold resolve Schema.resolve
  generalize schema.places[name]? = found at place
  subst place
  cases Scalar.ofName? name <;> cases schema.plain.indexOf? name <;> rfl

/-- The maps of a message that is found by its name agree with its fields. -/
theorem Agrees.of_message?
    (agrees : schema.Agrees)
    {name : String}
    {message : IndexedMessage}
    (found : (schema.definitionByName? name).bind IndexedDefinition.message? = some message) :
    message.Agrees := by
  obtain ⟨⟨full, index, kind⟩, named, isMessage⟩ := Option.bind_eq_some_iff.mp found
  obtain ⟨place, -, inside⟩ := Option.bind_eq_some_iff.mp named
  have kindAgrees := agrees.kinds _ (List.mem_of_getElem? inside)
  cases kind with
  | message type =>
      obtain rfl := Option.some.inj isMessage
      exact kindAgrees
  | enum type => cases isMessage
  | framed type => cases isMessage

/-! ### Additions -/

theorem agrees_empty : empty.Agrees where
  indices := fun _ _ found => by cases found
  places := findsLast_nil IndexedDefinition.name
  kinds := fun _ member => by cases member

theorem Agrees.append
    (agrees : schema.Agrees)
    (name : String)
    {kind : IndexedKind}
    (kindAgrees : kind.Agrees) :
    Agrees
      { definitions := schema.definitions ++ [⟨name, schema.definitions.length, kind⟩]
        places := schema.places.insert name schema.definitions.length } where
  indices := by
    intro place definition found
    change (schema.definitions ++ [_])[place]? = some definition at found
    rcases Nat.lt_or_ge place schema.definitions.length with before | after
    · rw [List.getElem?_append_left before] at found
      exact agrees.indices place definition found
    · rw [List.getElem?_append_right after] at found
      obtain ⟨last, rfl⟩ := List.getElem?_eq_some_iff.mp found
      simp only [List.length_singleton] at last
      simp only [List.getElem_singleton]
      omega
  places := agrees.places.concat (IndexedDefinition.mk name schema.definitions.length kind)
  kinds := by
    intro definition member
    rcases List.mem_append.mp member with before | added
    · exact agrees.kinds definition before
    · obtain rfl := List.mem_singleton.mp added
      exact kindAgrees

/-- A field of a message moves no definition. -/
theorem Agrees.set
    (agrees : schema.Agrees)
    {place index : Nat}
    {name : String}
    {message : IndexedMessage}
    (found : schema.definition? place = some ⟨name, index, .message message⟩)
    (field : Field) :
    Agrees
      { schema with
        definitions :=
          schema.definitions.set place ⟨name, index, .message (message.push field)⟩ } where
  indices := by
    intro other definition inside
    obtain ⟨bound, -⟩ := List.getElem?_eq_some_iff.mp found
    change (schema.definitions.set place _)[other]? = some definition at inside
    by_cases here : place = other
    · subst here
      rw [List.getElem?_set_self bound] at inside
      obtain rfl := Option.some.inj inside
      exact agrees.indices place ⟨name, index, .message message⟩ found
    · rw [List.getElem?_set_ne here] at inside
      exact agrees.indices other definition inside
  places := by
    have named : (schema.definitions.map IndexedDefinition.name)[place]? = some name := by
      rw [List.getElem?_map]
      exact congrArg (Option.map IndexedDefinition.name) found
    obtain ⟨bound, unchanged⟩ := List.getElem?_eq_some_iff.mp named
    refine agrees.places.of_map ?_
    rw [List.map_set]
    change (schema.definitions.map IndexedDefinition.name).set place name = _
    rw [← unchanged, List.set_getElem_self]
  kinds := by
    intro definition member
    rcases List.mem_or_eq_of_mem_set member with before | rfl
    · exact agrees.kinds definition before
    · exact (agrees.kinds _ (List.mem_of_getElem? found)).push field

/-- A field goes to the same message with maps and without them, and its place is noted. -/
theorem Agrees.pushField (agrees : schema.Agrees) (name : String) (field : Field) :
    (schema.pushField name field).Agrees ∧
      (schema.pushField name field).plain = schema.plain.pushField name field := by
  unfold IndexedSchema.pushField Schema.pushField
  rw [← agrees.place_eq]
  cases schema.places[name]? with
  | none => exact ⟨agrees, rfl⟩
  | some place =>
      simp only [definition?_plain]
      rcases found : schema.definition? place with _ | ⟨full, index, message | enum | framed⟩
      · exact ⟨agrees, rfl⟩
      · exact ⟨agrees.set found field, congrArg Schema.mk List.map_set⟩
      · exact ⟨agrees, rfl⟩
      · exact ⟨agrees, rfl⟩

end IndexedSchema

/-! ### Runs that end alike -/

/-- A run with maps and a run without them end alike: both fail with one cause, or both return the
same definitions, of which the first has maps that agree. -/
inductive EndAlike {ε : Type} : Except ε IndexedSchema → Except ε Schema → Prop where
  | ok {schema : IndexedSchema} (agrees : schema.Agrees) : EndAlike (.ok schema) (.ok schema.plain)
  | error (cause : ε) : EndAlike (.error cause) (.error cause)

namespace EndAlike

variable {ε ε' α : Type} {indexed : Except ε IndexedSchema} {plain : Except ε Schema}

theorem bind
    {next : IndexedSchema → Except ε IndexedSchema}
    {plainNext : Schema → Except ε Schema}
    (alike : EndAlike indexed plain)
    (each : ∀ schema : IndexedSchema, schema.Agrees →
      EndAlike (next schema) (plainNext schema.plain)) :
    EndAlike (indexed >>= next) (plain >>= plainNext) := by
  cases alike with
  | ok agrees => exact each _ agrees
  | error cause => exact .error cause

/-- What is found out first is the same with maps and without them. -/
theorem after
    {first : Except ε α}
    {next : α → Except ε IndexedSchema}
    {plainNext : α → Except ε Schema}
    (each : ∀ value, EndAlike (next value) (plainNext value)) :
    EndAlike (first >>= next) (first >>= plainNext) := by
  cases first with
  | ok value => exact each value
  | error cause => exact .error cause

theorem mapError (alike : EndAlike indexed plain) (f : ε → ε') :
    EndAlike (indexed.mapError f) (plain.mapError f) := by
  cases alike with
  | ok agrees => exact .ok agrees
  | error cause => exact .error (f cause)

/-- If every step of a run ends alike, the run ends alike. -/
theorem foldlM
    {step : IndexedSchema → α → Except ε IndexedSchema}
    {plainStep : Schema → α → Except ε Schema}
    (steps : ∀ (schema : IndexedSchema) item, schema.Agrees →
      EndAlike (step schema item) (plainStep schema.plain item))
    {schema : IndexedSchema}
    (agrees : schema.Agrees)
    (items : List α) :
    EndAlike (items.foldlM step schema) (items.foldlM plainStep schema.plain) := by
  induction items generalizing schema with
  | nil => exact .ok agrees
  | cons item others inductionHypothesis =>
      rw [List.foldlM_cons, List.foldlM_cons]
      exact (steps schema item agrees).bind fun next nextAgrees => inductionHypothesis nextAgrees

theorem eq_ok (alike : EndAlike indexed plain) {schema : IndexedSchema}
    (returned : indexed = .ok schema) :
    schema.Agrees ∧ plain = .ok schema.plain := by
  cases alike with
  | ok agrees =>
      cases returned
      exact ⟨agrees, rfl⟩
  | error cause => cases returned

theorem exists_of_ok (alike : EndAlike indexed plain) {schema : Schema}
    (returned : plain = .ok schema) :
    ∃ other : IndexedSchema, indexed = .ok other ∧ other.plain = schema := by
  cases alike with
  | @ok other agrees =>
      cases returned
      exact ⟨other, rfl, rfl⟩
  | error cause => cases returned

end EndAlike

namespace IndexedSchema

variable {schema : IndexedSchema}

theorem Agrees.pushField_alike
    {ε : Type}
    (agrees : schema.Agrees)
    (name : String)
    (field : Field) :
    @EndAlike ε (pure (schema.pushField name field))
      (pure (schema.plain.pushField name field)) := by
  obtain ⟨after, same⟩ := agrees.pushField name field
  rw [← same]
  exact .ok after

theorem Agrees.register
    (agrees : schema.Agrees)
    (name : String)
    {kind : IndexedKind}
    (kindAgrees : kind.Agrees) :
    EndAlike (schema.register name kind) (schema.plain.register name kind.plain) := by
  unfold IndexedSchema.register Schema.register
  rw [Std.HashMap.contains_eq_isSome_getElem?, agrees.place_eq]
  split
  · exact .error _
  · have added := @EndAlike.ok WireError _ (agrees.append name kindAgrees)
    simp only [plain, List.map_append] at added ⊢
    exact added

theorem Agrees.registerFramed
    (agrees : schema.Agrees)
    (name inner : String)
    (lengthType : Option String)
    (length : Option Nat) :
    EndAlike (schema.registerFramed name inner lengthType length)
      (schema.plain.registerFramed name inner lengthType length) := by
  unfold IndexedSchema.registerFramed Schema.registerFramed
  rw [agrees.resolve_eq]
  refine EndAlike.after fun framing => EndAlike.after fun type => ?_
  cases type with
  | scalar type => exact .error _
  | definition index =>
      simp only [definition?_plain]
      rcases schema.definition? index with _ | ⟨full, place, message | enum | framed⟩
      · exact .error _
      · have noMaps : (IndexedKind.framed ⟨index, framing⟩).Agrees := trivial
        exact agrees.register name noMaps
      · exact .error _
      · exact .error _

end IndexedSchema

end ProtoWire
