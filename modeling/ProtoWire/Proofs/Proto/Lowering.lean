import ProtoWire.Proofs.Schema.Growth
import ProtoWire.Proto.Lowering

/-!
Contract: the fields that declarations add to the messages of a schema. They are found from the
outline of the schema alone, so that all of them can be found before any of them is added.

Owns:
- what a declared field is lowered to;
- the additions of fields and files, and a schema with additions;
- the field numbers and names of additions.

Does not own: extensions, and which declarations are legal.
-/

namespace ProtoWire.Proto

open Outcome

/-! ### Lowered fields -/

@[simp] theorem resolveType_outline (schema : Schema) (scope name : String) :
    resolveType schema.outline scope name = resolveType schema scope name := by
  unfold resolveType resolveTypeBy
  simp only [Schema.indexOf?_outline]

theorem resolveType_of_outline
    {schema other : Schema}
    (same : other.outline = schema.outline)
    (scope name : String) :
    resolveType other scope name = resolveType schema scope name := by
  rw [← resolveType_outline, same, resolveType_outline]

@[simp] theorem isFieldType_outline (schema : Schema) :
    isFieldType schema.outline = isFieldType schema := by
  funext type
  cases type with
  | scalar type => rfl
  | definition index =>
      simp only [isFieldType, Schema.definition?_outline]
      rcases schema.definition? index with _ | ⟨name, _ | _ | _⟩ <;> rfl

@[simp] theorem FieldDecl.lower_outline
    (schema : Schema)
    (edition : Edition)
    (scope message : String)
    (field : FieldDecl) :
    field.lower schema.outline edition scope message =
      field.lower schema edition scope message := by
  unfold FieldDecl.lower FieldDecl.lowerAs
  rw [resolveType_outline, isFieldType_outline]
  simp only [Schema.wireType_outline]

/-- Relative and absolute names resolve to scalars or to places of full names. -/
theorem place_of_resolveType
    {schema : Schema}
    {scope name : String}
    {index : Nat}
    (resolved : resolveType schema scope name = some (.definition index)) :
    ∃ full, schema.indexOf? full = some index := by
  have place_of_map {full : String}
      (place : (schema.indexOf? full).map TypeRef.definition = some (.definition index)) :
      schema.indexOf? full = some index := by
    obtain ⟨same, found, equal⟩ := Option.map_eq_some_iff.mp place
    obtain rfl := TypeRef.definition.inj equal
    exact found
  unfold resolveType resolveTypeBy at resolved
  split at resolved
  · exact ⟨_, place_of_map resolved⟩
  · split at resolved
    · cases resolved
    · obtain ⟨outer, -, found⟩ := List.exists_of_findSome?_eq_some resolved
      exact ⟨_, place_of_map found⟩

theorem exists_of_resolveType
    {schema : Schema}
    {scope name : String}
    {index : Nat}
    (resolved : resolveType schema scope name = some (.definition index)) :
    ∃ definition, schema.definition? index = some definition := by
  obtain ⟨full, place⟩ := place_of_resolveType resolved
  obtain ⟨kind, definition⟩ := Schema.definition?_of_indexOf? place
  exact ⟨_, definition⟩

/-- What a name means is the last definition with its full name, also where full names are not
unique. -/
theorem indexOf?_of_resolveType
    {schema : Schema}
    {scope name full : String}
    {index : Nat}
    {kind : DefinitionKind}
    (resolved : resolveType schema scope name = some (.definition index))
    (found : schema.definition? index = some ⟨full, kind⟩) :
    schema.indexOf? full = some index := by
  obtain ⟨other, place⟩ := place_of_resolveType resolved
  obtain ⟨_, same⟩ := Schema.definition?_of_indexOf? place
  cases found.symm.trans same
  exact place

/-- A lowered field keeps its name, its number and its label, and obeys the rules on types. -/
theorem FieldDecl.lower_eq_ok
    {schema : Schema}
    {edition : Edition}
    {scope message : String}
    {field : FieldDecl}
    {lowered : Field}
    (ok : field.lower schema edition scope message = .ok lowered) :
    lowered.name = field.name ∧ lowered.tag = field.tag ∧ schema.IsFieldType lowered.type ∧
      (lowered.packed = true →
        lowered.isRepeated = true ∧ schema.wireType lowered.type ≠ .lengthDelimited) := by
  unfold FieldDecl.lower FieldDecl.lowerAs at ok
  split at ok
  · cases ok
  · rename_i type resolved
    obtain rfl := Except.ok.inj ok
    obtain ⟨resolved, unframed⟩ := Option.filter_eq_some_iff.mp resolved
    refine ⟨rfl, rfl, ?_, ?_⟩
    · cases type with
      | scalar type => trivial
      | definition index =>
          obtain ⟨definition, found⟩ := exists_of_resolveType resolved
          refine ⟨definition, found, ?_⟩
          intro framed kind
          simp [isFieldType, found, kind] at unframed
    · intro packed
      simp only [Bool.and_eq_true, bne_iff_ne] at packed
      exact packed.1

/-! ### Additions -/

/-- The fields that a field declaration adds, and the messages that they are added to. -/
def FieldDecl.additions
    (schema : Schema)
    (edition : Edition)
    (message : String)
    (field : FieldDecl) :
    Except SourceError (List (String × Field)) :=
  match field.map with
  | none => do
      let lowered ← field.lower schema edition message message
      pure [(message, lowered)]
  | some map => do
      let entry := mapEntryName message field.name
      let key ← (entryField field "key" 1 map.key).lower schema edition message entry
      let value ← (entryField field "value" 2 map.value).lower schema edition message entry
      let type ← (schema.resolve entry).mapError .wire
      pure [(entry, key), (entry, value),
        (message, ⟨field.name, field.tag, type, .repeated, false⟩)]

theorem FieldDecl.additions_outline
    (schema : Schema)
    (edition : Edition)
    (message : String)
    (field : FieldDecl) :
    field.additions schema.outline edition message = field.additions schema edition message := by
  unfold FieldDecl.additions
  simp only [FieldDecl.lower_outline, Schema.resolve_outline]

/-- The additions of the fields of a message. -/
def messageAdditions (edition : Edition) (schema : Schema) (named : String × MessageDecl) :
    Except SourceError (List (String × Field)) :=
  List.flatten <$> named.2.fields.mapM (FieldDecl.additions schema edition named.1)

/-- The additions of all messages of a file. -/
def FileDecl.additions (schema : Schema) (file : FileDecl) :
    Except SourceError (List (String × Field)) :=
  List.flatten <$> file.messagesWithNames.mapM (messageAdditions file.edition schema)

end ProtoWire.Proto

namespace ProtoWire

/-- Adds a field to the message that it is meant for. -/
def Schema.add (schema : Schema) (addition : String × Field) : Schema :=
  schema.pushField addition.1 addition.2

@[simp] theorem Schema.outline_add (schema : Schema) (addition : String × Field) :
    (schema.add addition).outline = schema.outline :=
  Schema.outline_pushField schema addition.1 addition.2

theorem Schema.outline_foldl_add (schema : Schema) (additions : List (String × Field)) :
    (additions.foldl Schema.add schema).outline = schema.outline := by
  induction additions generalizing schema with
  | nil => rfl
  | cons addition others inductionHypothesis =>
      rw [List.foldl_cons, inductionHypothesis, Schema.outline_add]

theorem Definition.extend_nil (definition : Definition) : definition.extend [] = definition := by
  obtain ⟨name, kind⟩ := definition
  cases kind with
  | message type => simp [Definition.extend, additionsTo]
  | enum type => rfl
  | framed type => rfl

theorem Definition.extend_extend
    (first second : List (String × Field))
    (definition : Definition) :
    (definition.extend first).extend second = definition.extend (first ++ second) := by
  obtain ⟨name, kind⟩ := definition
  cases kind with
  | message type => simp [Definition.extend, additionsTo, List.append_assoc]
  | enum type => rfl
  | framed type => rfl

/-- Under unique names, every definition gets the fields that are meant for it, in order. -/
theorem Schema.foldl_add
    {schema : Schema}
    (distinct : (schema.definitions.map Definition.name).Nodup)
    (additions : List (String × Field)) :
    additions.foldl Schema.add schema =
      ⟨schema.definitions.map (Definition.extend additions)⟩ := by
  induction additions generalizing schema with
  | nil =>
      have same : schema.definitions.map (Definition.extend []) = schema.definitions.map id :=
        List.map_congr_left fun definition _ => definition.extend_nil
      rw [List.foldl_nil, same, List.map_id]
  | cons addition others inductionHypothesis =>
      have names := Schema.names_of_outline (Schema.outline_add schema addition)
      have first : schema.add addition =
          ⟨schema.definitions.map (Definition.extend [addition])⟩ :=
        Schema.pushField_eq distinct addition.1 addition.2
      rw [List.foldl_cons, inductionHypothesis (names ▸ distinct), first, List.map_map]
      congr 1
      apply List.map_congr_left
      intro definition _
      exact definition.extend_extend [addition] others

namespace Proto

open Outcome

/-- Defining a field finds its additions first and then adds them. -/
theorem defineField_eq
    (edition : Edition)
    (message : String)
    (schema : Schema)
    (field : FieldDecl) :
    defineField edition message schema field =
      (fun added => added.foldl Schema.add schema) <$> field.additions schema edition message := by
  cases declared : field.map with
  | none =>
      simp only [defineField, FieldDecl.additions, declared]
      cases field.lower schema edition message message <;> rfl
  | some map =>
      have lowerPushed (declaration : FieldDecl) (entry : String) (key : Field) :
          declaration.lower (schema.pushField entry key) edition message entry =
            declaration.lower schema edition message entry := by
        rw [← FieldDecl.lower_outline, Schema.outline_pushField, FieldDecl.lower_outline]
      have resolvePushed (entry : String) (key value : Field) :
          ((schema.pushField entry key).pushField entry value).resolve entry =
            schema.resolve entry := by
        rw [← Schema.resolve_outline, Schema.outline_pushField, Schema.outline_pushField,
          Schema.resolve_outline]
      simp only [defineField, FieldDecl.additions, declared, lowerPushed, resolvePushed]
      cases (entryField field "key" 1 map.key).lower schema edition message
        (mapEntryName message field.name) with
      | error cause => rfl
      | ok key =>
          cases (entryField field "value" 2 map.value).lower schema edition message
            (mapEntryName message field.name) with
          | error cause => rfl
          | ok value =>
              cases (schema.resolve (mapEntryName message field.name)).mapError
                SourceError.wire <;> rfl

private theorem additions_add
    (edition : Edition)
    (message : String)
    (schema : Schema)
    (addition : String × Field)
    (field : FieldDecl) :
    field.additions (schema.add addition) edition message =
      field.additions schema edition message := by
  rw [← FieldDecl.additions_outline, Schema.outline_add, FieldDecl.additions_outline]

private theorem messageAdditions_add
    (edition : Edition)
    (schema : Schema)
    (addition : String × Field)
    (named : String × MessageDecl) :
    messageAdditions edition (schema.add addition) named =
      messageAdditions edition schema named := by
  unfold messageAdditions
  rw [funext (additions_add edition named.1 schema addition)]

private theorem fileAdditions_add
    (schema : Schema)
    (addition : String × Field)
    (file : FileDecl) :
    file.additions (schema.add addition) = file.additions schema := by
  unfold FileDecl.additions
  rw [funext (messageAdditions_add file.edition schema addition)]

/-- The additions of a message can be found before any of its fields is added. -/
private theorem defineFields_eq
    (edition : Edition)
    (schema : Schema)
    (named : String × MessageDecl) :
    named.2.fields.foldlM (defineField edition named.1) schema =
      (fun added => added.foldl Schema.add schema) <$> messageAdditions edition schema named := by
  rw [foldlM_eq_map_mapM (defineField_eq edition named.1) (additions_add edition named.1),
    messageAdditions, map_map]

theorem defineFile_eq (schema : Schema) (file : FileDecl) :
    defineFile schema file =
      (fun added => added.foldl Schema.add schema) <$> file.additions schema := by
  unfold defineFile FileDecl.additions
  rw [foldlM_eq_map_mapM (defineFields_eq file.edition) (messageAdditions_add file.edition),
    map_map]

/-- All additions of all files can be found before any of them is added. -/
theorem foldlM_defineFile (schema : Schema) (files : List FileDecl) :
    files.foldlM defineFile schema =
      (fun added => added.flatten.foldl Schema.add schema) <$>
        files.mapM (FileDecl.additions schema) :=
  foldlM_eq_map_mapM defineFile_eq fileAdditions_add files schema

/-! ### What is added -/

/-- The message that a field is for, and the number and the name of the field. -/
def additionKey (addition : String × Field) : String × Nat × String :=
  (addition.1, addition.2.tag, addition.2.name)

/-- The keys of the additions of a field. -/
def FieldDecl.keys (message : String) (field : FieldDecl) : List (String × Nat × String) :=
  match field.map with
  | none => [(message, field.tag, field.name)]
  | some _ =>
      [(mapEntryName message field.name, 1, "key"),
        (mapEntryName message field.name, 2, "value"),
        (message, field.tag, field.name)]

/-- The keys of the additions of a message. -/
def messageKeys (named : String × MessageDecl) : List (String × Nat × String) :=
  named.2.fields.flatMap (FieldDecl.keys named.1)

variable {schema : Schema} {edition : Edition}

theorem keys_of_additions
    {message : String}
    {field : FieldDecl}
    {added : List (String × Field)}
    (ok : field.additions schema edition message = .ok added) :
    added.map additionKey = field.keys message := by
  unfold FieldDecl.additions at ok
  unfold FieldDecl.keys
  split at ok
  · obtain ⟨lowered, lowers, equal⟩ := bind_eq_ok.mp ok
    obtain rfl := Except.ok.inj equal
    obtain ⟨name, tag, -, -⟩ := FieldDecl.lower_eq_ok lowers
    simp only [List.map_cons, List.map_nil, additionKey, name, tag]
  · obtain ⟨key, keyLowers, ok⟩ := bind_eq_ok.mp ok
    obtain ⟨value, valueLowers, ok⟩ := bind_eq_ok.mp ok
    obtain ⟨type, -, equal⟩ := bind_eq_ok.mp ok
    obtain rfl := Except.ok.inj equal
    obtain ⟨keyName, keyTag, -, -⟩ := FieldDecl.lower_eq_ok keyLowers
    obtain ⟨valueName, valueTag, -, -⟩ := FieldDecl.lower_eq_ok valueLowers
    simp only [List.map_cons, List.map_nil, additionKey, keyName, keyTag, valueName, valueTag]
    rfl

/-- In a schema without frames, the additions of a field with a legal number obey the rules. -/
theorem wellFormed_of_additions
    (unframed : ∀ definition ∈ schema.definitions, ∀ type, definition.kind ≠ .framed type)
    {message : String}
    {field : FieldDecl}
    (legal : ProtoWire.Tag.min ≤ field.tag ∧ field.tag ≤ ProtoWire.Tag.max)
    {added : List (String × Field)}
    (ok : field.additions schema edition message = .ok added) :
    ∀ addition ∈ added, addition.2.WellFormed schema := by
  have lowered {declaration : FieldDecl} {scope target : String} {result : Field}
      (lowers : declaration.lower schema edition scope target = .ok result)
      (bounds : ProtoWire.Tag.min ≤ declaration.tag ∧ declaration.tag ≤ ProtoWire.Tag.max) :
      result.WellFormed schema := by
    obtain ⟨-, tag, type, packed⟩ := FieldDecl.lower_eq_ok lowers
    rw [← tag] at bounds
    exact ⟨bounds.1, bounds.2, type, packed⟩
  unfold FieldDecl.additions at ok
  split at ok
  · obtain ⟨result, lowers, equal⟩ := bind_eq_ok.mp ok
    obtain rfl := Except.ok.inj equal
    intro addition member
    obtain rfl := List.mem_singleton.mp member
    exact lowered lowers legal
  · obtain ⟨key, keyLowers, ok⟩ := bind_eq_ok.mp ok
    obtain ⟨value, valueLowers, ok⟩ := bind_eq_ok.mp ok
    obtain ⟨type, resolved, equal⟩ := bind_eq_ok.mp ok
    obtain rfl := Except.ok.inj equal
    have entryType : schema.IsFieldType type := by
      cases type with
      | scalar type => trivial
      | definition index =>
          obtain ⟨kind, found⟩ := Schema.definition?_of_resolve (mapError_eq_ok.mp resolved)
          exact ⟨_, found, unframed _ (Schema.mem_of_definition? found)⟩
    intro addition member
    simp only [List.mem_cons, List.not_mem_nil, or_false] at member
    rcases member with rfl | rfl | rfl
    · exact lowered keyLowers (show _ ≤ 1 ∧ 1 ≤ _ by decide)
    · exact lowered valueLowers (show _ ≤ 2 ∧ 2 ≤ _ by decide)
    · exact ⟨legal.1, legal.2, entryType, by simp⟩

theorem keys_of_messageAdditions
    {named : String × MessageDecl}
    {added : List (String × Field)}
    (ok : messageAdditions edition schema named = .ok added) :
    added.map additionKey = messageKeys named := by
  unfold messageAdditions at ok
  obtain ⟨results, run, rfl⟩ := map_eq_ok.mp ok
  exact flatten_mapM (fun field _ result fieldOk => keys_of_additions fieldOk) run

theorem keys_of_fileAdditions
    {file : FileDecl}
    {added : List (String × Field)}
    (ok : file.additions schema = .ok added) :
    added.map additionKey = file.messagesWithNames.flatMap messageKeys := by
  unfold FileDecl.additions at ok
  obtain ⟨results, run, rfl⟩ := map_eq_ok.mp ok
  exact flatten_mapM (fun named _ result namedOk => keys_of_messageAdditions namedOk) run

theorem wellFormed_of_messageAdditions
    (unframed : ∀ definition ∈ schema.definitions, ∀ type, definition.kind ≠ .framed type)
    {named : String × MessageDecl}
    (legal : ∀ field ∈ named.2.fields,
      ProtoWire.Tag.min ≤ field.tag ∧ field.tag ≤ ProtoWire.Tag.max)
    {added : List (String × Field)}
    (ok : messageAdditions edition schema named = .ok added) :
    ∀ addition ∈ added, addition.2.WellFormed schema := by
  unfold messageAdditions at ok
  obtain ⟨results, run, rfl⟩ := map_eq_ok.mp ok
  refine forall_mem_flatten_mapM (fun addition => addition.2.WellFormed schema) ?_ run
  intro field member result fieldOk
  exact wellFormed_of_additions unframed (legal field member) fieldOk

theorem wellFormed_of_fileAdditions
    (unframed : ∀ definition ∈ schema.definitions, ∀ type, definition.kind ≠ .framed type)
    {file : FileDecl}
    (legal : ∀ named ∈ file.messagesWithNames, ∀ field ∈ named.2.fields,
      ProtoWire.Tag.min ≤ field.tag ∧ field.tag ≤ ProtoWire.Tag.max)
    {added : List (String × Field)}
    (ok : file.additions schema = .ok added) :
    ∀ addition ∈ added, addition.2.WellFormed schema := by
  unfold FileDecl.additions at ok
  obtain ⟨results, run, rfl⟩ := map_eq_ok.mp ok
  refine forall_mem_flatten_mapM (fun addition => addition.2.WellFormed schema) ?_ run
  intro named member result namedOk
  exact wellFormed_of_messageAdditions unframed (legal named member) namedOk

end Proto

end ProtoWire
