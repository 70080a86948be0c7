import ProtoWire.Proofs.Proto.Enclosure
import ProtoWire.Proofs.Proto.Faithful
import ProtoWire.Proofs.Proto.Remerging

/-!
Contract: a merge of extend blocks appends fields and changes nothing else, wherever it stops. A
definition keeps its place, its name, its kind and its extension ranges, and a message keeps its
fields in front of the new ones. What is new comes from a block that means the message.

Owns:
- messages, definitions and schemas that gain some fields only;
- the fields that the extend blocks of a file contribute;
- what a field, a block and a file leave, whether they are merged or refused.

Does not own: which files are refused.
-/

namespace ProtoWire

/-! ### Gains -/

/-- Two fields with different numbers and different names. -/
def Field.Apart (first second : Field) : Prop :=
  first.tag ≠ second.tag ∧ first.name ≠ second.name

/-- A message with some more fields behind its own. Each of them may be added, lies in an extension
range, and is apart from every other field. -/
structure MessageType.GainsOnly (MayAdd : Field → Prop) (before after : MessageType) : Prop where
  ranges : after.extensionRanges = before.extensionRanges
  fields : ∃ added, after.fields = before.fields ++ added ∧
    (∀ field ∈ added, MayAdd field ∧ before.inExtensionRange field.tag = true) ∧
      added.Pairwise Field.Apart ∧ ∀ known ∈ before.fields, ∀ field ∈ added, known.Apart field

/-- A message may gain fields. Enums and framed messages stay as they are. -/
inductive Definition.GainsOnly (MayAdd : Field → Prop) : Definition → Definition → Prop where
  | message {name : String} {before after : MessageType}
      (gains : before.GainsOnly MayAdd after) :
      Definition.GainsOnly MayAdd ⟨name, .message before⟩ ⟨name, .message after⟩
  | enum {name : String} {type : EnumType} :
      Definition.GainsOnly MayAdd ⟨name, .enum type⟩ ⟨name, .enum type⟩
  | framed {name : String} {type : FramedType} :
      Definition.GainsOnly MayAdd ⟨name, .framed type⟩ ⟨name, .framed type⟩

/-- The same definitions at the same places, where messages may have gained fields. What a message
may gain depends on its place. -/
def Schema.GainsOnly (MayAdd : Nat → Field → Prop) (schema after : Schema) : Prop :=
  ∀ index, Option.Rel (Definition.GainsOnly (MayAdd index))
    (schema.definition? index) (after.definition? index)

namespace MessageType.GainsOnly

variable
  {MayAdd : Field → Prop}
  {before message : MessageType}
  {field : Field}

theorem refl (message : MessageType) : message.GainsOnly MayAdd message where
  ranges := rfl
  fields := ⟨[], by simp⟩

theorem push
    (gains : before.GainsOnly MayAdd message)
    (adds : MayAdd field)
    (inRange : message.inExtensionRange field.tag = true)
    (freshTag : field.tag ∉ message.fields.map Field.tag)
    (freshName : field.name ∉ message.fields.map Field.name) :
    before.GainsOnly MayAdd (message.push field) where
  ranges := gains.ranges
  fields := by
    obtain ⟨added, same, origins, apart, fresh⟩ := gains.fields
    have new : ∀ known ∈ before.fields ++ added, known.Apart field := by
      intro known member
      rw [← same] at member
      exact ⟨fun clash => freshTag (clash ▸ List.mem_map_of_mem member),
        fun clash => freshName (clash ▸ List.mem_map_of_mem member)⟩
    rw [List.forall_mem_append] at new
    refine ⟨added ++ [field], ?_, ?_, ?_, ?_⟩
    · rw [MessageType.push, same, List.append_assoc]
    · rw [List.forall_mem_append, List.forall_mem_singleton]
      refine ⟨origins, adds, ?_⟩
      rwa [inExtensionRange, gains.ranges] at inRange
    · rw [List.pairwise_append]
      refine ⟨apart, List.pairwise_singleton _ field, fun known member => ?_⟩
      rw [List.forall_mem_singleton]
      exact new.2 known member
    · intro known member
      rw [List.forall_mem_append, List.forall_mem_singleton]
      exact ⟨fresh known member, new.1 known member⟩

end MessageType.GainsOnly

theorem Definition.GainsOnly.refl
    {MayAdd : Field → Prop}
    (definition : Definition) :
    definition.GainsOnly MayAdd definition := by
  obtain ⟨name, kind⟩ := definition
  cases kind with
  | message type => exact .message (.refl type)
  | enum type => exact .enum
  | framed type => exact .framed

/-- What gains fields is compared at a place that may be empty. -/
theorem Definition.GainsOnly.outline
    {MayAdd : Field → Prop}
    {before after : Option Definition}
    (gains : Option.Rel (Definition.GainsOnly MayAdd) before after) :
    after.map Definition.outline = before.map Definition.outline := by
  cases gains with
  | none => rfl
  | some gains =>
      cases gains with
      | message gains =>
          simp only [Option.map_some, Definition.outline, DefinitionKind.outline, gains.ranges]
      | enum => rfl
      | framed => rfl

theorem Definition.GainsOnly.message_before
    {MayAdd : Field → Prop}
    {before : Option Definition}
    {name : String}
    {message : MessageType}
    (gains : Option.Rel (Definition.GainsOnly MayAdd) before (some ⟨name, .message message⟩)) :
    ∃ type, before = some ⟨name, .message type⟩ ∧ type.GainsOnly MayAdd message := by
  cases gains with
  | some gains =>
      cases gains with
      | message gains => exact ⟨_, rfl, gains⟩

namespace Schema.GainsOnly

variable
  {MayAdd : Nat → Field → Prop}
  {schema current : Schema}

theorem refl (schema : Schema) : schema.GainsOnly MayAdd schema := by
  intro index
  cases schema.definition? index with
  | none => exact .none
  | some definition => exact .some (.refl definition)

theorem outline (gains : schema.GainsOnly MayAdd current) : current.outline = schema.outline := by
  refine congrArg Schema.mk (List.ext_getElem? fun index => ?_)
  rw [List.getElem?_map, List.getElem?_map]
  exact Definition.GainsOnly.outline (gains index)

/-- One more field for the last message with a name. -/
theorem pushField
    (gains : schema.GainsOnly MayAdd current)
    {index : Nat}
    {name : String}
    {message : MessageType}
    {field : Field}
    (place : current.indexOf? name = some index)
    (found : current.definition? index = some ⟨name, .message message⟩)
    (adds : MayAdd index field)
    (inRange : message.inExtensionRange field.tag = true)
    (freshTag : field.tag ∉ message.fields.map Field.tag)
    (freshName : field.name ∉ message.fields.map Field.name) :
    schema.GainsOnly MayAdd (current.pushField name field) := by
  intro other
  have before := gains other
  rw [Schema.pushField_of_indexOf? place found]
  by_cases same : index = other
  · subst same
    obtain ⟨bound, -⟩ := List.getElem?_eq_some_iff.mp found
    rw [found] at before
    obtain ⟨type, known, typeGains⟩ := Definition.GainsOnly.message_before before
    have pushed : (Schema.mk (current.definitions.set index
        ⟨name, .message (message.push field)⟩)).definition? index =
          some ⟨name, .message (message.push field)⟩ :=
      List.getElem?_set_self bound
    rw [known, pushed]
    exact .some (.message (typeGains.push adds inRange freshTag freshName))
  · have kept : (Schema.mk (current.definitions.set index
        ⟨name, .message (message.push field)⟩)).definition? other = current.definition? other :=
      List.getElem?_set_ne same
    rwa [kept]

end Schema.GainsOnly

namespace Proto

open Outcome

/-! ### Contributions -/

/-- A field of an extend block of a file, wherever the block stands, that extends the message at a
place of a schema. The name in front of the block and the type of the field are resolved in the
scope of the block. -/
def FileDecl.Contributes
    (file : FileDecl)
    (schema : Schema)
    (index : Nat)
    (field : Field) : Prop :=
  ∃ block, file.Holds block ∧
    resolveType schema block.1 block.2.name = some (.definition index) ∧
      ∃ declaration ∈ block.2.fields, declaration.LowersTo schema file.edition block.1 field

section Merges

variable
  {file : FileDecl}
  {schema current : Schema}
  {block : String × ExtendDecl}

/-- The target of a block is looked up by its name again, and this leads to the place that the block
means. -/
private theorem place_of_target
    (same : current.outline = schema.outline)
    {scope name target : String}
    {message : MessageType}
    (targeted : extensionTarget? schema scope name = some target)
    (named : (current.definitionByName? target).bind Definition.message? = some message) :
    ∃ index, resolveType schema scope name = some (.definition index) ∧
      current.indexOf? target = some index ∧
        current.definition? index = some ⟨target, .message message⟩ := by
  obtain ⟨place, placed, found⟩ := message_of_definitionByName? named
  obtain ⟨index, _, resolved, meant⟩ := extensionTarget?_eq_some.mp targeted
  have again := indexOf?_of_resolveType resolved meant
  rw [← Schema.indexOf?_of_outline same] at again
  obtain rfl := Option.some.inj (placed.symm.trans again)
  exact ⟨place, resolved, placed, found⟩

/-- A field of a block is appended to the message that the block means, or nothing changes. -/
theorem gainsOnly_mergeField
    (held : file.Holds block)
    {target : String}
    (targeted : extensionTarget? schema block.1 block.2.name = some target)
    {declaration : FieldDecl}
    (declared : declaration ∈ block.2.fields)
    (gains : schema.GainsOnly (file.Contributes schema) current) :
    schema.GainsOnly (file.Contributes schema)
      ((mergeField file.edition block.1 target block.2.name declaration).leaves current) := by
  rcases leaves_mergeField current file.edition block.1 target block.2.name declaration with
    same | ⟨lowered, message, lowers, named, freshTag, freshName, inRange, pushed⟩
  · rwa [same]
  · obtain ⟨index, resolved, placed, found⟩ := place_of_target gains.outline targeted named
    have meaning := (FieldDecl.lowersTo_of_lower lowers).transport gains.outline.symm
    rw [pushed]
    exact gains.pushField placed found ⟨block, held, resolved, declaration, declared, meaning⟩
      inRange (MessageType.fieldByTag?_eq_none.mp freshTag)
      (MessageType.fieldByName?_eq_none.mp freshName)

theorem gainsOnly_mergeBlock
    (held : file.Holds block)
    (gains : schema.GainsOnly (file.Contributes schema) current) :
    schema.GainsOnly (file.Contributes schema)
      ((mergeBlock file.edition block.1 block.2).leaves current) := by
  cases targeted : extensionTarget? current block.1 block.2.name with
  | none =>
      rw [Merge.leaves, mergeBlock_of_none targeted]
      exact gains
  | some target =>
      rw [Merge.leaves, mergeBlock_of_some targeted]
      rw [extensionTarget?_of_outline gains.outline] at targeted
      exact Merge.leaves_forM (schema.GainsOnly (file.Contributes schema))
        (fun _ declared _ before => gainsOnly_mergeField held targeted declared before) gains

theorem gainsOnly_mergeFile (file : FileDecl) (schema : Schema) :
    schema.GainsOnly (file.Contributes schema) ((mergeFile file).leaves schema) :=
  Merge.leaves_forM (schema.GainsOnly (file.Contributes schema))
    (fun _ own _ before => gainsOnly_mergeBlock (FileDecl.mem_extensionBlocks.mp own) before)
    (.refl schema)

/-- A block asks its target for all of its fields. -/
theorem mem_blockRequests
    {edition : Edition}
    {wanted : List (String × Field)}
    (ok : blockRequests edition schema block = .ok wanted) :
    ∃ target, extensionTarget? schema block.1 block.2.name = some target ∧
      ∀ declaration ∈ block.2.fields, ∃ lowered, (target, lowered) ∈ wanted ∧
        declaration.LowersTo schema edition block.1 lowered := by
  unfold blockRequests at ok
  cases targeted : extensionTarget? schema block.1 block.2.name with
  | none =>
      rw [targeted] at ok
      cases ok
  | some target =>
      rw [targeted] at ok
      obtain ⟨parts, run, rfl⟩ := map_eq_ok.mp ok
      refine ⟨target, rfl, fun declaration declared => ?_⟩
      obtain ⟨request, requestOk⟩ := exists_of_mapM run declared
      obtain ⟨lowered, lowers, rfl⟩ := map_eq_ok.mp requestOk
      refine ⟨lowered, (mem_flatten_mapM run).mpr ?_, FieldDecl.lowersTo_of_lower lowers⟩
      exact ⟨declaration, declared, _, requestOk, List.mem_singleton.mpr rfl⟩

/-- After a merge that succeeds, the message that a block means has the fields of the block. -/
theorem fields_of_mergeFile
    {after : Schema}
    (ok : mergeFile file schema = .ok () after)
    (held : file.Holds block) :
    ∃ index name message, resolveType schema block.1 block.2.name = some (.definition index) ∧
      after.definition? index = some ⟨name, .message message⟩ ∧
        ∀ declaration ∈ block.2.fields, ∃ field ∈ message.fields,
          declaration.LowersTo schema file.edition block.1 field := by
  obtain ⟨requests, requestsOk, grants⟩ := mergeFile_eq_ok.mp ok
  obtain ⟨parts, run, rfl⟩ := map_eq_ok.mp requestsOk
  have own := FileDecl.mem_extensionBlocks.mpr held
  obtain ⟨wanted, wantedOk⟩ := exists_of_mapM run own
  obtain ⟨target, targeted, asked⟩ := mem_blockRequests wantedOk
  obtain ⟨index, _, resolved, meant⟩ := extensionTarget?_eq_some.mp targeted
  obtain ⟨fields, found⟩ := Schema.message_of_outline grants.outline meant
  refine ⟨index, target, _, resolved, found, fun declaration declared => ?_⟩
  obtain ⟨lowered, member, lowers⟩ := asked declaration declared
  have inside := (mem_flatten_mapM run).mpr ⟨block, own, wanted, wantedOk, member⟩
  obtain ⟨message, named, known⟩ := finds_of_grantsAll grants _ inside
  obtain ⟨again, resolvedAgain, -, foundAgain⟩ := place_of_target grants.outline targeted named
  cases resolved.symm.trans resolvedAgain
  cases found.symm.trans foundAgain
  exact ⟨lowered, (MessageType.mem_of_fieldByTag? known).1, lowers⟩

end Merges

/-- Whether a merge of a file succeeds or stops on the way, it appends contributions of the file to
messages and changes nothing else. When it succeeds, no field of an extend block is missing from the
message that the block means. -/
theorem mergeFile_appends (file : FileDecl) (schema : Schema) :
    schema.GainsOnly (file.Contributes schema) ((mergeFile file).leaves schema) ∧
      ∀ after, mergeFile file schema = .ok () after → ∀ block, file.Holds block →
        ∃ index name message,
          resolveType schema block.1 block.2.name = some (.definition index) ∧
            after.definition? index = some ⟨name, .message message⟩ ∧
              ∀ declaration ∈ block.2.fields, ∃ field ∈ message.fields,
                declaration.LowersTo schema file.edition block.1 field :=
  ⟨gainsOnly_mergeFile file schema, fun _ ok _ held => fields_of_mergeFile ok held⟩

/-- An extend block of two fields for the message of `zooFile`, named from inside of a message. -/
def nestBlock (tag : Nat) : ExtendDecl :=
  ⟨"Animal", .first,
    [⟨"parent", .first, "Animal", 110, .optional, none, none⟩,
     ⟨"eggs", .first, "uint32", tag, .optional, none, none⟩]⟩

def nestFile (tag : Nat) : FileDecl :=
  ⟨.proto2, some "zoo", [], [⟨"Nest", .first, [], [], [], [nestBlock tag], []⟩], [], []⟩

/-- With a second number out of range, the merge stops between the fields of the block. -/
theorem mergeFile_appends_nest :
    (∃ after index name message,
      mergeFile (nestFile 111) zooSchema = .ok () after ∧
        after.definition? index = some ⟨name, .message message⟩ ∧
          ∀ declaration ∈ (nestBlock 111).fields, ∃ field ∈ message.fields,
            declaration.LowersTo zooSchema .proto2 "zoo.Nest" field) ∧
    ∃ after,
      mergeFile (nestFile 300) zooSchema =
          .error (.extensionOutOfRange "zoo.Animal" "eggs" 300) after ∧
        after = zooSchema.pushField "zoo.Animal"
          ⟨"parent", 110, .definition 0, .optional, false⟩ ∧
        zooSchema.GainsOnly ((nestFile 300).Contributes zooSchema) after := by
  have held : (nestFile 111).Holds ("zoo.Nest", nestBlock 111) :=
    .inr ⟨_, .here List.mem_cons_self, List.mem_cons_self⟩
  obtain ⟨after, ok⟩ : ∃ after, mergeFile (nestFile 111) zooSchema = .ok () after := ⟨_, rfl⟩
  obtain ⟨index, name, message, -, found, present⟩ :=
    (mergeFile_appends (nestFile 111) zooSchema).2 after ok _ held
  exact ⟨⟨after, index, name, message, ok, found, present⟩,
    _, rfl, rfl, (mergeFile_appends (nestFile 300) zooSchema).1⟩

end Proto

end ProtoWire
