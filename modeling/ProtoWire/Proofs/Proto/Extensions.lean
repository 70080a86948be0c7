import ProtoWire.Proofs.Proto.Filling

/-!
Contract: merging the extend blocks of files adds fields of these blocks to a schema, and nothing
else. If the merge succeeds, no field of a block is missing from the message that it extends.

Owns:
- schemas that grow by additions, and runs of merges that make them grow;
- where the additions of blocks come from;
- the fields of blocks after a merge that succeeds.

Does not own: the fields that messages declare themselves.
-/

namespace ProtoWire

/-! ### Growth -/

/-- A schema with some more fields, added one after the other. -/
def Schema.GrowsBy (Adds : String × Field → Prop) (schema after : Schema) : Prop :=
  ∃ additions : List (String × Field),
    after = additions.foldl Schema.add schema ∧ ∀ addition ∈ additions, Adds addition

namespace Schema.GrowsBy

variable
  {Adds : String × Field → Prop}
  {schema middle after : Schema}

theorem refl (schema : Schema) : schema.GrowsBy Adds schema :=
  ⟨[], rfl, nofun⟩

theorem trans
    (first : schema.GrowsBy Adds middle)
    (second : middle.GrowsBy Adds after) :
    schema.GrowsBy Adds after := by
  obtain ⟨front, rfl, frontAdds⟩ := first
  obtain ⟨back, rfl, backAdds⟩ := second
  refine ⟨front ++ back, List.foldl_append.symm, fun addition member => ?_⟩
  exact (List.mem_append.mp member).elim (frontAdds addition) (backAdds addition)

theorem add {addition : String × Field} (adds : Adds addition) :
    schema.GrowsBy Adds (schema.add addition) :=
  ⟨[addition], rfl, fun _ member => List.mem_singleton.mp member ▸ adds⟩

theorem outline (grows : schema.GrowsBy Adds after) : after.outline = schema.outline := by
  obtain ⟨additions, rfl, -⟩ := grows
  exact Schema.outline_foldl_add schema additions

theorem names (grows : schema.GrowsBy Adds after) :
    after.definitions.map Definition.name = schema.definitions.map Definition.name := by
  exact Schema.names_of_outline grows.outline

/-- A message keeps its place and its fields. -/
theorem message
    (grows : schema.GrowsBy Adds after)
    (distinct : (schema.definitions.map Definition.name).Nodup)
    {index : Nat}
    {name : String}
    {message : MessageType}
    (found : schema.definition? index = some ⟨name, .message message⟩) :
    ∃ later, after.definition? index = some ⟨name, .message later⟩ ∧
      ∀ field ∈ message.fields, field ∈ later.fields := by
  obtain ⟨additions, rfl, -⟩ := grows
  rw [Schema.foldl_add distinct additions]
  refine ⟨{ message with fields := message.fields ++ additionsTo name additions }, ?_, ?_⟩
  · rw [Schema.definition?, List.getElem?_map]
    exact congrArg (Option.map (Definition.extend additions)) found
  · exact fun field member => List.mem_append_left _ member

end Schema.GrowsBy

end ProtoWire

namespace ProtoWire.Proto

/-! ### Runs of merges -/

namespace Merge

variable
  {α : Type}
  {change : α → Merge}
  {items : List α}
  {Adds : String × Field → Prop}
  {defined schema after : Schema}

theorem leaves_of_ok {merge : Merge} (ok : merge schema = .ok () after) :
    merge.leaves schema = after := by
  rw [leaves, ok]

theorem forM_cons_eq_ok {item : α} {others : List α} :
    ((item :: others).forM change : Merge) schema = .ok () after ↔
      ∃ middle, change item schema = .ok () middle ∧
        (others.forM change : Merge) middle = .ok () after := by
  change EStateM.bind (change item) (fun _ => others.forM change) schema = _ ↔ _
  unfold EStateM.bind
  cases change item schema <;> simp

/-- If each change makes the schemas grow that are grown already, a run of changes does so. -/
theorem growsBy_forM
    (kept : ∀ item ∈ items, ∀ schema, defined.GrowsBy Adds schema →
      schema.GrowsBy Adds ((change item).leaves schema))
    (start : defined.GrowsBy Adds schema) :
    schema.GrowsBy Adds (Merge.leaves (items.forM change) schema) := by
  have grown := leaves_forM
    (fun middle => defined.GrowsBy Adds middle ∧ schema.GrowsBy Adds middle)
    (fun item member middle before =>
      have step := kept item member middle before.1
      ⟨before.1.trans step, before.2.trans step⟩)
    ⟨start, .refl schema⟩
  exact grown.2

/-- In a run that succeeds, every item succeeds between two schemas on the way. -/
theorem forM_ok
    (kept : ∀ item ∈ items, ∀ schema, defined.GrowsBy Adds schema →
      schema.GrowsBy Adds ((change item).leaves schema))
    (start : defined.GrowsBy Adds schema)
    (run : (items.forM change : Merge) schema = .ok () after)
    {item : α}
    (member : item ∈ items) :
    ∃ before middle, defined.GrowsBy Adds before ∧ change item before = .ok () middle ∧
      before.GrowsBy Adds middle ∧ middle.GrowsBy Adds after := by
  induction items generalizing schema with
  | nil => cases member
  | cons head others inductionHypothesis =>
      obtain ⟨middle, headOk, rest⟩ := forM_cons_eq_ok.mp run
      have keptOthers (other : α) (inside : other ∈ others) :=
        kept other (List.mem_cons_of_mem head inside)
      have first := kept head List.mem_cons_self schema start
      rw [leaves_of_ok headOk] at first
      rcases List.mem_cons.mp member with rfl | later
      · refine ⟨schema, middle, start, headOk, first, ?_⟩
        rw [← leaves_of_ok rest]
        exact growsBy_forM keptOthers (start.trans first)
      · exact inductionHypothesis keptOthers (start.trans first) rest later

end Merge

/-! ### What merges add -/

/-- The target of a block is the message that its name means in its scope. -/
theorem extensionTarget?_eq_some {schema : Schema} {scope name target : String} :
    extensionTarget? schema scope name = some target ↔
      ∃ index message, resolveType schema scope name = some (.definition index) ∧
        schema.definition? index = some ⟨target, .message message⟩ := by
  unfold extensionTarget?
  rcases resolved : resolveType schema scope name with _ | type | index
  · simp
  · simp
  · rcases found : schema.definition? index with _ | ⟨full, message | enum | framed⟩ <;>
      simp [found, Definition.message?]

theorem extensionTarget?_of_outline
    {schema after : Schema}
    (same : after.outline = schema.outline)
    (scope name : String) :
    extensionTarget? after scope name = extensionTarget? schema scope name := by
  have forward {first second : Schema} (same : second.outline = first.outline) {target : String}
      (targeted : extensionTarget? first scope name = some target) :
      extensionTarget? second scope name = some target := by
    obtain ⟨index, message, resolved, found⟩ := extensionTarget?_eq_some.mp targeted
    obtain ⟨fields, place⟩ := Schema.message_of_outline same found
    rw [← resolveType_of_outline same] at resolved
    exact extensionTarget?_eq_some.mpr ⟨index, _, resolved, place⟩
  apply Option.ext
  exact fun target => ⟨forward same.symm, forward same⟩

/-- An addition that some files may make to a schema by their extend blocks: a field of a block,
with a number in an extension range of the message that the block extends. -/
def IsExtension (defined : Schema) (files : List FileDecl) (addition : String × Field) : Prop :=
  Extends defined files addition.1 addition.2 ∧
    ∃ index message, defined.definition? index = some ⟨addition.1, .message message⟩ ∧
      message.inExtensionRange addition.2.tag = true

section Merges

variable
  {defined schema : Schema}
  {files : List FileDecl}
  {file : FileDecl}
  {block : String × ExtendDecl}
  {declaration : FieldDecl}
  {target : String}

theorem growsBy_mergeField
    (inside : file ∈ files)
    (own : block ∈ file.extensionBlocks)
    (declared : declaration ∈ block.2.fields)
    (targeted : extensionTarget? defined block.1 block.2.name = some target)
    (before : defined.GrowsBy (IsExtension defined files) schema) :
    schema.GrowsBy (IsExtension defined files)
      ((mergeField file.edition block.1 target block.2.name declaration).leaves schema) := by
  rcases leaves_mergeField schema file.edition block.1 target block.2.name declaration with
    same | ⟨lowered, message, lowers, named, -, -, inRange, pushed⟩
  · rw [same]
    exact .refl schema
  · obtain ⟨index, -, found⟩ := message_of_definitionByName? named
    obtain ⟨fields, place⟩ := Schema.message_of_outline before.outline.symm found
    have meaning := (FieldDecl.lowersTo_of_lower lowers).transport before.outline.symm
    have extension : IsExtension defined files (target, lowered) :=
      ⟨⟨file, inside, block, FileDecl.mem_extensionBlocks.mp own, declaration, declared,
        extensionTarget?_eq_some.mp targeted, meaning⟩, index, _, place, inRange⟩
    rw [pushed]
    exact .add extension

theorem growsBy_mergeBlock
    (inside : file ∈ files)
    (own : block ∈ file.extensionBlocks)
    (before : defined.GrowsBy (IsExtension defined files) schema) :
    schema.GrowsBy (IsExtension defined files)
      ((mergeBlock file.edition block.1 block.2).leaves schema) := by
  cases targeted : extensionTarget? schema block.1 block.2.name with
  | none =>
      rw [Merge.leaves, mergeBlock_of_none targeted]
      exact .refl schema
  | some target =>
      rw [Merge.leaves, mergeBlock_of_some targeted]
      have same := (extensionTarget?_of_outline before.outline _ _).symm.trans targeted
      exact Merge.growsBy_forM
        (fun declaration declared _ grown => growsBy_mergeField inside own declared same grown)
        before

theorem growsBy_mergeFile
    (inside : file ∈ files)
    (before : defined.GrowsBy (IsExtension defined files) schema) :
    schema.GrowsBy (IsExtension defined files) ((mergeFile file).leaves schema) := by
  exact Merge.growsBy_forM (fun _ own _ grown => growsBy_mergeBlock inside own grown) before

theorem growsBy_of_mergeFiles
    {after : Schema}
    (run : (files.forM mergeFile : Merge) defined = .ok () after) :
    defined.GrowsBy (IsExtension defined files) after := by
  rw [← Merge.leaves_of_ok run]
  exact Merge.growsBy_forM (fun _ inside _ grown => growsBy_mergeFile inside grown) (.refl defined)

/-! ### What merges leave out -/

/-- A field that is merged is in its message afterwards, if it was not there before. -/
theorem mergeField_ok
    {edition : Edition}
    {scope name : String}
    {after : Schema}
    (ok : mergeField edition scope target name declaration schema = .ok () after) :
    ∃ lowered index message,
      declaration.lower schema edition scope target = .ok lowered ∧
        after.definition? index = some ⟨target, .message message⟩ ∧
          lowered ∈ message.fields := by
  unfold mergeField at ok
  split at ok
  · cases ok
  · rename_i lowered lowers
    split at ok
    · cases ok
    · rename_i message named
      obtain ⟨index, place, found⟩ := message_of_definitionByName? named
      split at ok
      · rename_i known tagged
        split at ok
        · rename_i same
          cases ok
          subst same
          exact ⟨known, index, message, lowers, found,
            (MessageType.mem_of_fieldByTag? tagged).1⟩
        · cases ok
      · split at ok
        · cases ok
        · split at ok
          · cases ok
            obtain ⟨bound, -⟩ := List.getElem?_eq_some_iff.mp found
            refine ⟨lowered, index, message.push lowered, lowers, ?_, ?_⟩
            · rw [Schema.pushField_of_indexOf? place found]
              exact List.getElem?_set_self bound
            · exact List.mem_append_right _ (List.mem_singleton.mpr rfl)
          · cases ok

theorem mergeBlock_ok
    {edition : Edition}
    {scope : String}
    {extension : ExtendDecl}
    {after : Schema}
    (ok : mergeBlock edition scope extension schema = .ok () after) :
    ∃ target, extensionTarget? schema scope extension.name = some target ∧
      (extension.fields.forM (mergeField edition scope target extension.name) : Merge) schema =
        .ok () after := by
  cases targeted : extensionTarget? schema scope extension.name with
  | none =>
      rw [mergeBlock_of_none targeted] at ok
      cases ok
  | some target =>
      rw [mergeBlock_of_some targeted] at ok
      exact ⟨target, rfl, ok⟩

/-- After a merge that succeeds, every field of every block is in the message that the block
extends. -/
theorem fields_of_mergeFiles
    (distinct : (defined.definitions.map Definition.name).Nodup)
    {after : Schema}
    (run : (files.forM mergeFile : Merge) defined = .ok () after)
    (inside : file ∈ files)
    (own : block ∈ file.extensionBlocks) :
    ∃ index name message,
      resolveType after block.1 block.2.name = some (.definition index) ∧
        after.definition? index = some ⟨name, .message message⟩ ∧
          ∀ declaration ∈ block.2.fields, ∃ field ∈ message.fields,
            declaration.LowersTo after file.edition block.1 field := by
  have grown := growsBy_of_mergeFiles run
  obtain ⟨_, _, fileGrown, fileOk, -, afterFile⟩ :=
    Merge.forM_ok (fun _ inside _ grown => growsBy_mergeFile inside grown) (.refl defined) run inside
  obtain ⟨_, _, blockGrown, blockOk, -, afterBlock⟩ :=
    Merge.forM_ok (fun _ own _ grown => growsBy_mergeBlock inside own grown) fileGrown fileOk own
  obtain ⟨target, targeted, fieldsOk⟩ := mergeBlock_ok blockOk
  have known := (extensionTarget?_of_outline blockGrown.outline _ _).symm.trans targeted
  obtain ⟨index, _, resolved, found⟩ := extensionTarget?_eq_some.mp known
  obtain ⟨message, place, -⟩ := grown.message distinct found
  rw [← resolveType_of_outline grown.outline] at resolved
  refine ⟨index, target, message, resolved, place, fun declaration declared => ?_⟩
  obtain ⟨_, middle, fieldGrown, fieldOk, step, afterField⟩ := Merge.forM_ok
    (fun _ declared _ grown => growsBy_mergeField inside own declared known grown)
    blockGrown fieldsOk declared
  obtain ⟨lowered, _, _, lowers, pushed, member⟩ := mergeField_ok fieldOk
  have middleDistinct := (fieldGrown.trans step).names ▸ distinct
  have rest := afterField.trans (afterBlock.trans afterFile)
  obtain ⟨later, laterPlace, keeps⟩ := rest.message middleDistinct pushed
  obtain ⟨-, same⟩ := Schema.eq_of_name (grown.names ▸ distinct) place laterPlace
  obtain rfl := DefinitionKind.message.inj same
  have outline := grown.outline.trans fieldGrown.outline.symm
  exact ⟨lowered, keeps lowered member, (FieldDecl.lowersTo_of_lower lowers).transport outline⟩

end Merges

end ProtoWire.Proto
