import ProtoWire.Proofs.Proto.Extensions

/-!
Contract: a compiled schema holds what its files declare, in the order of the declarations, and
nothing else. The passes of a compilation, which find messages by their names, agree with the
description of the definitions in one pass over the syntax.

Owns:
- the definitions of messages and files with the fields that are added to them;
- the definitions of compiled schemas.

Does not own: what a type name means in a scope.
-/

namespace ProtoWire.Proto

open Outcome

/-! ### Extended definitions -/

/-- What is known of the extensions that are added to some definitions: each belongs to a block,
none has a number twice, and messages without extension ranges get none. -/
structure ExtendedBy
    (schema : Schema)
    (files : List FileDecl)
    (definitions : List Definition)
    (extensions : List (String × Field)) : Prop where
  sources : ∀ addition ∈ extensions, Extends schema files addition.1 addition.2
  once : ∀ name message, ⟨name, .message message⟩ ∈ definitions →
    ((additionsTo name extensions).map Field.tag).Nodup
  closed : ∀ name message, ⟨name, .message message⟩ ∈ definitions →
    message.extensionRanges = [] → additionsTo name extensions = []

section Definitions

variable
  {schema : Schema}
  {files : List FileDecl}
  {definitions : List Definition}
  {additions extensions : List (String × Field)}
  {edition : Edition}

private theorem extend_enums (scope : String) (enums : List EnumDecl) :
    (enums.map (EnumDecl.definition scope)).map (Definition.extend additions) =
      enums.map (EnumDecl.definition scope) := by
  rw [List.map_map]
  rfl

private theorem defines_entries
    (extended : ExtendedBy schema files definitions extensions)
    {named : String × MessageDecl}
    (filled : FilledBy schema edition additions named)
    (known : ∀ definition ∈ mapEntryDefinitions named.1 named.2.fields, definition ∈ definitions) :
    List.Forall₂ (FieldDecl.DefinesEntry schema named.1)
      (named.2.fields.filter fun field => field.map.isSome)
      ((mapEntryDefinitions named.1 named.2.fields).map
        (Definition.extend (additions ++ extensions))) := by
  unfold mapEntryDefinitions at known ⊢
  rw [List.map_map, List.forall₂_map_right_iff, List.forall₂_same]
  intro declaration member
  obtain ⟨declared, mapped⟩ := List.mem_filter.mp member
  have none := extended.closed _ _ (known _ (List.mem_map_of_mem member)) rfl
  have entry := filled.entries declaration declared mapped
  rw [← List.append_nil (additionsTo _ additions), ← none, ← additionsTo_append] at entry
  exact entry

mutual

/-- A message whose fields are added by its name is what its declaration stands for. -/
private theorem defines_of_filledBy
    (extended : ExtendedBy schema files definitions extensions) :
    ∀ (scope : String) (message : MessageDecl),
      (∀ definition ∈ message.definitions scope, definition ∈ definitions) →
      (∀ named ∈ message.withNames scope, FilledBy schema edition additions named) →
      message.Defines schema edition (Extends schema files) scope
        ((message.definitions scope).map (Definition.extend (additions ++ extensions)))
  | scope, ⟨name, position, fields, messages, enums, blocks, ranges⟩, known, filled => by
      unfold MessageDecl.definitions at known ⊢
      unfold MessageDecl.withNames at filled
      rw [List.forall_mem_cons, List.forall_mem_append, List.forall_mem_append] at known
      rw [List.forall_mem_cons] at filled
      obtain ⟨bare, entries, inner, -⟩ := known
      obtain ⟨own, nested⟩ := filled
      rw [List.map_cons, List.map_append, List.map_append, extend_enums]
      have shape : (bareMessage (joinName scope name) ranges).extend (additions ++ extensions) =
          ⟨joinName scope name, .message
            ⟨additionsTo (joinName scope name) additions ++
                additionsTo (joinName scope name) extensions,
              ranges.map fun range => (range.start, range.stop)⟩⟩ := by
        rw [← additionsTo_append]
        rfl
      rw [shape]
      have mapEntries := defines_entries extended own entries
      refine .intro (fullName_joinName scope name) own.own ?_ (extended.once _ _ bare) mapEntries
        (define_of_filledBy extended (joinName scope name) messages inner nested)
        (forall₂_enumDefinitions (joinName scope name) enums)
      intro field member
      obtain ⟨addition, inside, rfl⟩ := List.mem_map.mp member
      obtain ⟨present, target⟩ := List.mem_filter.mp inside
      have source := extended.sources addition present
      rwa [eq_of_beq target] at source

private theorem define_of_filledBy
    (extended : ExtendedBy schema files definitions extensions) :
    ∀ (scope : String) (messages : List MessageDecl),
      (∀ definition ∈ definitionsOfMessages scope messages, definition ∈ definitions) →
      (∀ named ∈ messagesWithNames scope messages, FilledBy schema edition additions named) →
      MessagesDefine schema edition (Extends schema files) scope messages
        ((definitionsOfMessages scope messages).map
          (Definition.extend (additions ++ extensions)))
  | scope, [], _, _ => .nil
  | scope, message :: others, known, filled => by
      unfold definitionsOfMessages at known ⊢
      unfold messagesWithNames at filled
      rw [List.forall_mem_append] at known filled
      rw [List.map_append]
      exact .cons (defines_of_filledBy extended scope message known.1 filled.1)
        (define_of_filledBy extended scope others known.2 filled.2)

end

/-- The definitions of files whose fields are added by names are what the files stand for. -/
theorem forall₂_of_filledBy
    (extended : ExtendedBy schema files (files.flatMap FileDecl.definitions) extensions)
    (filled : ∀ file ∈ files, ∀ named ∈ file.messagesWithNames,
      FilledBy schema file.edition additions named) :
    List.Forall₂ (FileDecl.Defines schema (Extends schema files)) files
      (files.map fun file =>
        file.definitions.map (Definition.extend (additions ++ extensions))) := by
  rw [List.forall₂_map_right_iff, List.forall₂_same]
  intro file inside
  refine ⟨_, _, define_of_filledBy extended file.scope file.messages ?_ (filled file inside),
    forall₂_enumDefinitions file.scope file.enums, ?_⟩
  · intro definition member
    exact List.mem_flatMap.mpr ⟨file, inside, List.mem_append_left _ member⟩
  · rw [FileDecl.definitions, List.map_append, extend_enums]

end Definitions

/-! ### Compiled schemas -/

section Compiled

variable
  {declared schema : Schema}
  {files : List FileDecl}
  {additions extensions : List (String × Field)}

/-- Extensions that are merged into a schema under the rules are as they should be. -/
private theorem extendedBy_of_isExtension
    (distinct : (declared.definitions.map Definition.name).Nodup)
    (wellFormed : schema.WellFormed)
    (shape : schema = extensions.foldl Schema.add (additions.foldl Schema.add declared))
    (sources : ∀ addition ∈ extensions,
      IsExtension (additions.foldl Schema.add declared) files addition) :
    ExtendedBy schema files declared.definitions extensions := by
  have outline : schema.outline = (additions.foldl Schema.add declared).outline := by
    rw [shape, Schema.outline_foldl_add]
  constructor
  · exact fun addition member => (sources addition member).1.transport outline
  · intro name message member
    rw [← List.foldl_append, Schema.foldl_add distinct] at shape
    have extended : ⟨name, .message { message with
        fields := message.fields ++ additionsTo name (additions ++ extensions) }⟩ ∈
          schema.definitions := by
      rw [shape]
      exact List.mem_map_of_mem (f := Definition.extend (additions ++ extensions)) member
    have tags := (wellFormed.messages _ _ extended).tags
    rw [additionsTo_append] at tags
    refine List.Nodup.sublist (List.Sublist.map Field.tag ?_) tags
    exact (List.sublist_append_right _ _).trans (List.sublist_append_right _ _)
  · intro name message member unranged
    rw [additionsTo_eq_nil]
    rintro addition inside rfl
    obtain ⟨-, index, target, found, inRange⟩ := sources addition inside
    obtain ⟨fields, bare⟩ :=
      Schema.message_of_outline (Schema.outline_foldl_add declared additions).symm found
    obtain ⟨other, place⟩ := List.getElem?_of_mem member
    obtain ⟨-, same⟩ := Schema.eq_of_name distinct bare place
    obtain rfl := DefinitionKind.message.inj same
    have ranges : target.extensionRanges = [] := unranged
    rw [MessageType.inExtensionRange, ranges] at inRange
    cases inRange

/-- The definitions of a compiled schema are those that its files declare, one file after the
other and each under a name of its own. No field of an extend block is missing. -/
theorem definitions_of_compileFiles (compiled : compileFiles files = .ok schema) :
    (schema.definitions.map Definition.name).Nodup ∧
    (∃ parts, List.Forall₂ (FileDecl.Defines schema (Extends schema files)) files parts ∧
      schema.definitions = parts.flatten) ∧
    ∀ file ∈ files, ∀ block, file.Holds block → ∃ index name message,
      resolveType schema block.1 block.2.name = some (.definition index) ∧
        schema.definition? index = some ⟨name, .message message⟩ ∧
          ∀ declaration ∈ block.2.fields, ∃ field ∈ message.fields,
            declaration.LowersTo schema file.edition block.1 field := by
  have wellFormed := wellFormed_of_compileFiles compiled
  obtain ⟨-, declared, added, declares, adds, merges⟩ := compileFiles_eq_ok compiled
  obtain ⟨same, distinct, -⟩ := foldlM_declare declares
  rw [← same] at distinct
  have grown := growsBy_of_mergeFiles merges
  refine ⟨wellFormed.names, ?_, fun file inside block held => ?_⟩
  · obtain ⟨extensions, shape, sources⟩ := grown
    have outline : schema.outline = declared.outline := by
      rw [shape, Schema.outline_foldl_add, Schema.outline_foldl_add]
    have extended := extendedBy_of_isExtension distinct wellFormed shape sources
    rw [same] at extended
    refine ⟨_, forall₂_of_filledBy extended fun file inside named member =>
      (filledBy_of_additions declares adds inside member).transport outline, ?_⟩
    rw [shape, ← List.foldl_append, Schema.foldl_add distinct, same, List.map_flatMap,
      List.flatMap_def]
  · refine fields_of_mergeFiles ?_ merges inside (FileDecl.mem_extensionBlocks.mpr held)
    rw [Schema.names_of_outline (Schema.outline_foldl_add _ _)]
    exact distinct

end Compiled

/-- A message with a run, a map, a field of a type declared inside of it, and room for more. -/
def zooFile : FileDecl :=
  ⟨.proto3, some "zoo", [],
    [⟨"Animal", .first,
      [⟨"weights", .first, "int32", 1, .repeated, none, none⟩,
       ⟨"meals", .first, "Diet", 2, .none, some ⟨"string", "Diet"⟩, none⟩,
       ⟨"home", .first, "Cage", 3, .none, none, none⟩],
      [⟨"Cage", .first, [⟨"open", .first, "bool", 1, .optional, none, none⟩], [], [], [], []⟩],
      [⟨"Diet", .first, [⟨"LEAVES", .first, 0⟩, ⟨"MEAT", .first, 2⟩, ⟨"FISH", .first, 1⟩]⟩],
      [],
      [⟨100, 200⟩]⟩],
    [], []⟩

/-- A file in the older edition, with a message and an enum of its own, that extends the message. -/
def keeperFile : FileDecl :=
  ⟨.proto2, none, [],
    [⟨"Keeper", .first,
      [⟨"name", .first, "string", 1, .required, none, none⟩,
       ⟨"rank", .first, "Rank", 2, .none, none, none⟩],
      [], [], [], []⟩],
    [⟨"Rank", .first, [⟨"JUNIOR", .first, 0⟩, ⟨"SENIOR", .first, 1⟩]⟩],
    [⟨"zoo.Animal", .first,
      [⟨"lengths", .first, "sint32", 100, .repeated, none, some true⟩,
       ⟨"ages", .first, "sint32", 101, .repeated, none, none⟩,
       ⟨"spare", .first, ".zoo.Animal.Cage", 102, .optional, none, none⟩]⟩]⟩

def zooSchema : Schema :=
  ⟨[⟨"zoo.Animal", .message
      ⟨[⟨"weights", 1, .scalar .int32, .repeated, true⟩,
        ⟨"meals", 2, .definition 1, .repeated, false⟩,
        ⟨"home", 3, .definition 2, .optional, false⟩,
        ⟨"lengths", 100, .scalar .sint32, .repeated, true⟩,
        ⟨"ages", 101, .scalar .sint32, .repeated, false⟩,
        ⟨"spare", 102, .definition 2, .optional, false⟩], [(100, 200)]⟩⟩,
    ⟨"zoo.Animal_meals_entry", .message
      ⟨[⟨"key", 1, .scalar .string, .optional, false⟩,
        ⟨"value", 2, .definition 3, .optional, false⟩], []⟩⟩,
    ⟨"zoo.Animal.Cage", .message ⟨[⟨"open", 1, .scalar .bool, .optional, false⟩], []⟩⟩,
    ⟨"zoo.Animal.Diet", .enum ⟨[⟨"LEAVES", 0⟩, ⟨"MEAT", 2⟩, ⟨"FISH", 1⟩]⟩⟩,
    ⟨"Keeper", .message
      ⟨[⟨"name", 1, .scalar .string, .required, false⟩,
        ⟨"rank", 2, .definition 5, .optional, false⟩], []⟩⟩,
    ⟨"Rank", .enum ⟨[⟨"JUNIOR", 0⟩, ⟨"SENIOR", 1⟩]⟩⟩]⟩

theorem definitions_of_compileFiles_zoo :
    compileFiles [zooFile, keeperFile] = .ok zooSchema ∧
    ∃ parts,
      List.Forall₂ (FileDecl.Defines zooSchema (Extends zooSchema [zooFile, keeperFile]))
          [zooFile, keeperFile] parts ∧
        zooSchema.definitions = parts.flatten := by
  have compiled : compileFiles [zooFile, keeperFile] = .ok zooSchema :=
    eq_ok_of_toOption (by decide +kernel)
  obtain ⟨-, parts, -⟩ := definitions_of_compileFiles compiled
  exact ⟨compiled, parts⟩

end ProtoWire.Proto
