import ProtoWire.Proofs.Proto.Faithful
import ProtoWire.Proofs.Proto.Reordering

/-!
Contract: the order of files does not matter. Files in any order compile, or do not compile, and
what they compile to holds the same definitions under the same names. Only the order of the
definitions and the order of the fields that extend blocks add depend on the order of the files.

Owns:
- definitions that differ in the order of added fields;
- the passes of a compilation over reordered files;
- the schemas of reordered files.

Does not own: what a single file declares.
-/

namespace ProtoWire.Proto

open Outcome

/-! ### Definitions that are alike -/

/-- The numbers and the names of the fields that the declarations in some files give to a message,
or to the entry of a map. -/
def declaredFields (files : List FileDecl) (name : String) : List (Nat × String) :=
  (((files.flatMap FileDecl.messagesWithNames).flatMap messageKeys).filter fun key =>
    key.1 == name).map Prod.snd

/-- Two enums with the same values in one order, or two messages with the same ranges, the same
declared fields in one order, and the same other fields in any order. Types are compared by their
names. -/
inductive KindsAlike (schema other : Schema) (declared : List (Nat × String)) :
    DefinitionKind → DefinitionKind → Prop where
  | enum {type : EnumType} : KindsAlike schema other declared (.enum type) (.enum type)
  | message {own otherOwn added otherAdded : List Field} {ranges : List (Nat × Nat)}
      (ownFields : own.map (fun field => (field.tag, field.name)) = declared)
      (sameOwn : own.map (Field.named schema) = otherOwn.map (Field.named other))
      (sameAdded : (added.map (Field.named schema)).Perm (otherAdded.map (Field.named other))) :
      KindsAlike schema other declared (.message ⟨own ++ added, ranges⟩)
        (.message ⟨otherOwn ++ otherAdded, ranges⟩)

/-- Two schemas define the same names, and each name alike. -/
structure DefineAlike (files : List FileDecl) (schema other : Schema) : Prop where
  names : (schema.definitions.map Definition.name).Perm (other.definitions.map Definition.name)
  alike : ∀ name first second, ⟨name, first⟩ ∈ schema.definitions →
    ⟨name, second⟩ ∈ other.definitions →
      KindsAlike schema other (declaredFields files name) first second

/-! ### Passes -/

/-- The first passes of a compilation, with the definitions and the fields that they find. -/
structure Defined
    (files : List FileDecl)
    (declared : Schema)
    (added : List (List (String × Field))) : Prop where
  checked : ∀ file ∈ files, file.check = .ok ()
  declares : (files.flatMap FileDecl.definitions).foldlM declare .empty = .ok declared
  adds : files.mapM (FileDecl.additions declared) = .ok added

/-- The schema before any extend block is merged. -/
def withAdded (declared : Schema) (added : List (List (String × Field))) : Schema :=
  added.flatten.foldl Schema.add declared

/-- All passes of a compilation, with the fields that extend blocks ask for. -/
structure Passes
    (files : List FileDecl)
    (declared : Schema)
    (added wanted : List (List (String × Field)))
    (schema : Schema) : Prop extends Defined files declared added where
  wants : files.mapM (FileDecl.requests declared) = .ok wanted
  grants : GrantsAll (withAdded declared added) wanted.flatten schema

theorem outline_withAdded (declared : Schema) (added : List (List (String × Field))) :
    (withAdded declared added).outline = declared.outline :=
  Schema.outline_foldl_add declared added.flatten

/-- What extend blocks ask for can be found before any field is added. -/
private theorem requests_withAdded (declared : Schema) (added : List (List (String × Field))) :
    FileDecl.requests (withAdded declared added) = FileDecl.requests declared :=
  funext (FileDecl.requests_of_outline (outline_withAdded declared added))

theorem compileFiles_iff {files : List FileDecl} {schema : Schema} :
    compileFiles files = .ok schema ↔
      ∃ declared added wanted, Passes files declared added wanted schema := by
  constructor
  · intro compiled
    obtain ⟨checked, declared, added, declares, adds, merges⟩ := compileFiles_eq_ok compiled
    change (files.forM mergeFile : Merge) (withAdded declared added) = _ at merges
    obtain ⟨wanted, wants, grants⟩ := mergeFiles_eq_ok.mp merges
    rw [requests_withAdded] at wants
    exact ⟨declared, added, wanted, ⟨checked, declares, adds⟩, wants, grants⟩
  · rintro ⟨declared, added, wanted, ⟨checked, declares, adds⟩, wants, grants⟩
    rw [← requests_withAdded declared added] at wants
    have merges := mergeFiles_eq_ok.mpr ⟨wanted, wants, grants⟩
    have defines : files.foldlM defineFile declared = .ok (withAdded declared added) := by
      rw [foldlM_defineFile, adds]
      rfl
    unfold compileFiles
    rw [forM_eq_ok.mpr checked, ok_bind, declares, ok_bind, defines, ok_bind]
    simp only [merges]

/-- Definitions under new names that are no keywords are declared one after the other. -/
theorem foldlM_declare_of_nodup
    {schema : Schema}
    {definitions : List Definition}
    (distinct : ((schema.definitions ++ definitions).map Definition.name).Nodup)
    (keywords : ∀ name ∈ definitions.map Definition.name, Scalar.ofName? name = none) :
    definitions.foldlM declare schema = .ok ⟨schema.definitions ++ definitions⟩ := by
  induction definitions generalizing schema with
  | nil =>
      rw [List.append_nil]
      rfl
  | cons definition others inductionHypothesis =>
      have fresh : definition.name ∉ schema.definitions.map Definition.name := by
        rw [List.map_append, List.nodup_append] at distinct
        exact fun again => distinct.2.2 _ again _ List.mem_cons_self rfl
      have first : declare schema definition = .ok ⟨schema.definitions ++ [definition]⟩ := by
        rw [declare, Schema.indexOf?_eq_none.mpr fresh]
        exact mapError_eq_ok.mpr
          (Schema.register_eq_ok.mpr ⟨fresh, keywords _ List.mem_cons_self, rfl⟩)
      have shift : schema.definitions ++ definition :: others =
          schema.definitions ++ [definition] ++ others := by
        rw [List.append_assoc, List.singleton_append]
      rw [shift] at distinct ⊢
      rw [List.foldlM_cons, first, ok_bind]
      exact inductionHypothesis distinct fun name member =>
        keywords name (List.mem_cons_of_mem _ member)

section Reordered

variable {files others : List FileDecl}

theorem declares_of_perm
    (perm : files.Perm others)
    {declared : Schema}
    (declares : (files.flatMap FileDecl.definitions).foldlM declare .empty = .ok declared) :
    ∃ redeclared, (others.flatMap FileDecl.definitions).foldlM declare .empty = .ok redeclared ∧
      declared.definitions.Perm redeclared.definitions ∧ declared.Reorders redeclared := by
  obtain ⟨same, distinct, keywords⟩ := foldlM_declare declares
  have definitions := perm.flatMap_right FileDecl.definitions
  have names := definitions.map Definition.name
  have redeclares : (others.flatMap FileDecl.definitions).foldlM declare .empty =
      .ok ⟨others.flatMap FileDecl.definitions⟩ :=
    foldlM_declare_of_nodup (names.nodup_iff.mp distinct) fun name member =>
      keywords name (names.mem_iff.mpr member)
  refine ⟨_, redeclares, same ▸ definitions, ?_, ?_⟩
  · rw [same]
    exact distinct
  · change (declared.definitions.map Definition.outline).Perm _
    rw [same]
    exact definitions.map Definition.outline

theorem exists_of_alike
    {α : Type}
    {view other : String × Field → α}
    {first second : Except SourceError (List (String × Field))}
    (alike : List.map view <$> first = List.map other <$> second)
    {values : List (String × Field)}
    (ok : first = .ok values) :
    ∃ again, second = .ok again ∧ values.map view = again.map other := by
  obtain ⟨cause, failed, -⟩ | ⟨value, again, firstOk, secondOk, same⟩ := map_eq_map.mp alike
  · cases ok.symm.trans failed
  · obtain rfl := Except.ok.inj (ok.symm.trans firstOk)
    exact ⟨again, secondOk, same⟩

/-- A run that looks alike at each file succeeds for the files in any order. -/
theorem run_of_perm
    (perm : files.Perm others)
    {α : Type}
    {view other : String × Field → α}
    {first second : FileDecl → Except SourceError (List (String × Field))}
    (alike : ∀ file, List.map view <$> first file = List.map other <$> second file)
    {results : List (List (String × Field))}
    (run : files.mapM first = .ok results) :
    ∃ again, others.mapM second = .ok again ∧
      ∀ result ∈ again.flatten, ∃ part ∈ results.flatten, view part = other result := by
  obtain ⟨again, rerun⟩ : ∃ again, others.mapM second = .ok again := by
    refine exists_mapM fun file member => ?_
    obtain ⟨values, ok⟩ := exists_of_mapM run (perm.mem_iff.mpr member)
    obtain ⟨values, ok, -⟩ := exists_of_alike (alike file) ok
    exact ⟨values, ok⟩
  refine ⟨again, rerun, fun result inside => ?_⟩
  obtain ⟨file, member, values, ok, own⟩ := (mem_flatten_mapM rerun).mp inside
  obtain ⟨parts, partsOk, same⟩ := exists_of_alike (alike file).symm ok
  have shown : other result ∈ parts.map view := same ▸ List.mem_map_of_mem own
  obtain ⟨part, partMember, equal⟩ := List.mem_map.mp shown
  exact ⟨part, (mem_flatten_mapM run).mpr
    ⟨file, perm.mem_iff.mpr member, parts, partsOk, partMember⟩, equal⟩

/-! ### Declared fields -/

/-- What is added to a name, with the names of the types. -/
theorem map_additionsTo (schema : Schema) (name : String) (additions : List (String × Field)) :
    (additionsTo name additions).map (Field.named schema) =
      ((additions.map (namedAddition schema)).filter fun addition => addition.1 == name).map
        Prod.snd := by
  rw [additionsTo, List.filter_map, List.map_map, List.map_map]
  rfl

/-- The fields of a message are declared in one file, so that they stand in the same order. -/
theorem additionsTo_of_perm
    (perm : files.Perm others)
    {declared redeclared : Schema}
    {added readded : List (List (String × Field))}
    (reorders : declared.Reorders redeclared)
    (declares : (files.flatMap FileDecl.definitions).foldlM declare .empty = .ok declared)
    (adds : files.mapM (FileDecl.additions declared) = .ok added)
    (readds : others.mapM (FileDecl.additions redeclared) = .ok readded)
    (name : String) :
    (additionsTo name added.flatten).map (Field.named declared) =
      (additionsTo name readded.flatten).map (Field.named redeclared) := by
  have apart := List.Nodup.sublist (targets_sublist_files files) (foldlM_declare declares).2.1
  rw [List.flatMap_assoc] at apart
  have reapart := (perm.flatMap_right fun file =>
    file.messagesWithNames.flatMap targets).nodup_iff.mp apart
  have foreign {schema : Schema} (file : FileDecl)
      (unreached : name ∉ file.messagesWithNames.flatMap targets) (result : List (String × Field))
      (ok : file.additions schema = .ok result) : additionsTo name result = [] :=
    additionsTo_other_messages (keys_of_fileAdditions ok) unreached
  by_cases reached : ∃ file ∈ files, name ∈ file.messagesWithNames.flatMap targets
  · obtain ⟨file, member, own⟩ := reached
    obtain ⟨values, ok⟩ := exists_of_mapM adds member
    obtain ⟨again, againOk, same⟩ := exists_of_alike (fileAdditions_reordered reorders file) ok
    rw [additionsTo_flatten apart (fun file _ => foreign file) adds member own ok,
      additionsTo_flatten reapart (fun file _ => foreign file) readds (perm.mem_iff.mp member) own
        againOk, map_additionsTo, map_additionsTo, same]
  · have unreached : name ∉ (files.flatMap FileDecl.messagesWithNames).flatMap targets := by
      rw [List.flatMap_assoc, List.mem_flatMap]
      exact reached
    have nowhere : name ∉ (others.flatMap FileDecl.messagesWithNames).flatMap targets := by
      have reordered := (perm.flatMap_right FileDecl.messagesWithNames).flatMap_right targets
      exact fun again => unreached (reordered.mem_iff.mpr again)
    rw [additionsTo_other_messages (keys_of_additions_files adds) unreached,
      additionsTo_other_messages (keys_of_additions_files readds) nowhere]
    rfl

end Reordered

/-! ### Reordered files -/

theorem Defined.wellFormed
    {files : List FileDecl}
    {declared : Schema}
    {added : List (List (String × Field))}
    (defined : Defined files declared added) :
    (withAdded declared added).WellFormed :=
  wellFormed_foldl_add defined.checked defined.declares defined.adds

/-- Before any extend block is merged, a message has its declared fields. -/
theorem Defined.message
    {files : List FileDecl}
    {declared : Schema}
    {added : List (List (String × Field))}
    (defined : Defined files declared added)
    {name : String}
    {message : MessageType}
    (member : ⟨name, .message message⟩ ∈ (withAdded declared added).definitions) :
    message.fields = additionsTo name added.flatten := by
  obtain ⟨-, distinct, -⟩ := foldlM_declare defined.declares
  rw [← (foldlM_declare defined.declares).1] at distinct
  rw [withAdded, Schema.foldl_add distinct] at member
  obtain ⟨definition, inside, extended⟩ := List.mem_map.mp member
  obtain ⟨before, rfl, rfl⟩ := Definition.extend_eq_message extended
  have bare := isBare_of_mem_declared defined.checked defined.declares inside
  change before.fields ++ additionsTo name added.flatten = _
  rw [bare.1, List.nil_append]

private theorem lowered_of_requests
    {files : List FileDecl}
    {declared : Schema}
    {added wanted : List (List (String × Field))}
    (wants : files.mapM (FileDecl.requests declared) = .ok wanted) :
    ∀ request ∈ wanted.flatten, IsLowered (withAdded declared added) request.2 := by
  intro request member
  obtain ⟨file, -, result, ok, own⟩ := (mem_flatten_mapM wants).mp member
  exact (isLowered_of_requests ok request own).of_outline (outline_withAdded declared added)

section Permuted

variable
  {files others : List FileDecl}
  {declared redeclared schema other : Schema}
  {added readded wanted rewanted : List (List (String × Field))}
  (perm : files.Perm others)

include perm

theorem reorders_of_perm
    (first : Defined files declared added)
    (second : Defined others redeclared readded) :
    declared.definitions.Perm redeclared.definitions ∧ declared.Reorders redeclared := by
  obtain ⟨again, redeclares, definitions, reorders⟩ := declares_of_perm perm first.declares
  obtain rfl := Except.ok.inj (redeclares.symm.trans second.declares)
  exact ⟨definitions, reorders⟩

theorem mirrors_of_perm
    (first : Defined files declared added)
    (second : Defined others redeclared readded) :
    (withAdded declared added).Mirrors (withAdded redeclared readded) := by
  have reorders := (reorders_of_perm perm first second).2
  constructor
  · exact reorders.of_outlines (outline_withAdded declared added)
      (outline_withAdded redeclared readded)
  · intro name message again member otherMember
    rw [first.message member, second.message otherMember,
      Schema.named_of_outline (outline_withAdded declared added),
      Schema.named_of_outline (outline_withAdded redeclared readded)]
    exact additionsTo_of_perm perm reorders first.declares first.adds second.adds name

theorem exists_passes_of_perm (passes : Passes files declared added wanted schema) :
    ∃ redeclared readded rewanted other, Passes others redeclared readded rewanted other := by
  obtain ⟨redeclared, redeclares, -, reorders⟩ := declares_of_perm perm passes.declares
  obtain ⟨readded, readds, -⟩ := run_of_perm perm (fileAdditions_reordered reorders) passes.adds
  obtain ⟨rewanted, rewants, alike⟩ := run_of_perm perm (requests_reordered reorders) passes.wants
  have second : Defined others redeclared readded :=
    ⟨fun file member => passes.checked file (perm.mem_iff.mpr member), redeclares, readds⟩
  have mirrors := mirrors_of_perm perm passes.toDefined second
  have compatible := (exists_grantsAll_iff passes.wellFormed (lowered_of_requests passes.wants)).mp
    ⟨schema, passes.grants⟩
  rw [← namedAddition_of_outline (outline_withAdded declared added),
    ← namedAddition_of_outline (outline_withAdded redeclared readded)] at alike
  have relowered : ∀ request ∈ rewanted.flatten,
      IsLowered (withAdded redeclared readded) request.2 := lowered_of_requests rewants
  have recompatible := compatible_of_mirrors mirrors second.wellFormed alike
    (fun request member => (relowered request member).has) compatible
  obtain ⟨other, grants⟩ := (exists_grantsAll_iff second.wellFormed relowered).mpr recompatible
  exact ⟨redeclared, readded, rewanted, other, second, rewants, grants⟩

/-- What is asked for by files in one order is asked for in every other order. -/
private theorem exists_request_of_perm
    (first : Passes files declared added wanted schema)
    (second : Passes others redeclared readded rewanted other)
    {request : String × Field}
    (member : request ∈ wanted.flatten) :
    ∃ again ∈ rewanted.flatten,
      namedAddition redeclared again = namedAddition declared request := by
  have reorders := (reorders_of_perm perm first.toDefined second.toDefined).2
  obtain ⟨results, run, alike⟩ :=
    run_of_perm perm.symm (requests_reordered reorders.symm) second.wants
  obtain rfl := Except.ok.inj (run.symm.trans first.wants)
  exact alike request member

/-- What extend blocks add to a message in one order of the files, they add in every other order. -/
private theorem added_of_perm
    (first : Passes files declared added wanted schema)
    (second : Passes others redeclared readded rewanted other)
    {extensions reextensions : List (String × Field)}
    (adds : ∀ addition, addition ∈ extensions ↔
      addition ∈ wanted.flatten ∧ ¬ HasField (withAdded declared added) addition)
    (readds : ∀ addition, addition ∈ reextensions ↔
      addition ∈ rewanted.flatten ∧ ¬ HasField (withAdded redeclared readded) addition)
    {name : String}
    {field : NamedField}
    (member : field ∈ (additionsTo name extensions).map (Field.named declared)) :
    field ∈ (additionsTo name reextensions).map (Field.named redeclared) := by
  obtain ⟨part, inside, rfl⟩ := List.mem_map.mp member
  obtain ⟨asked, absent⟩ := (adds _).mp (mem_additionsTo.mp inside)
  obtain ⟨⟨target, again⟩, askedAgain, same⟩ := exists_request_of_perm perm first second asked
  obtain ⟨rfl, sameField⟩ := Prod.mk.inj same
  have mirrors := mirrors_of_perm perm first.toDefined second.toDefined
  have lowered : IsLowered (withAdded declared added) part :=
    lowered_of_requests first.wants (target, part) asked
  have stillAbsent : ¬ HasField (withAdded redeclared readded) (target, again) := by
    intro there
    refine absent (hasField_of_mirrors mirrors.symm first.wellFormed ?_ lowered.has there)
    rw [namedAddition_of_outline (outline_withAdded declared added),
      namedAddition_of_outline (outline_withAdded redeclared readded)]
    exact same
  rw [← sameField]
  exact List.mem_map_of_mem (mem_additionsTo.mpr ((readds _).mpr ⟨askedAgain, stillAbsent⟩))

end Permuted

/-! ### Compiled definitions -/

section Compiled

variable
  {files others : List FileDecl}
  {declared redeclared schema other : Schema}
  {added readded wanted rewanted : List (List (String × Field))}
  {extensions reextensions : List (String × Field)}

theorem Passes.wellFormed (passes : Passes files declared added wanted schema) :
    schema.WellFormed :=
  wellFormed_of_compileFiles (compileFiles_iff.mpr ⟨declared, added, wanted, passes⟩)

/-- Extend blocks add the fields that they ask for and that no message declares. -/
theorem Passes.exists_extensions (passes : Passes files declared added wanted schema) :
    ∃ extensions : List (String × Field),
      schema = extensions.foldl Schema.add (withAdded declared added) ∧
        ∀ addition, addition ∈ extensions ↔
          addition ∈ wanted.flatten ∧ ¬ HasField (withAdded declared added) addition :=
  passes.grants.additions passes.toDefined.wellFormed (lowered_of_requests passes.wants)

/-- A compiled definition is a declared enum, or a declared message with its declared fields and
the fields of extend blocks after them. -/
theorem Defined.kind_cases
    (defined : Defined files declared added)
    (shape : schema = extensions.foldl Schema.add (withAdded declared added))
    {name : String}
    {kind : DefinitionKind}
    (member : ⟨name, kind⟩ ∈ schema.definitions) :
    (∃ type, kind = .enum type ∧ ⟨name, .enum type⟩ ∈ declared.definitions) ∨
      ∃ ranges, ⟨name, .message ⟨[], ranges⟩⟩ ∈ declared.definitions ∧
        kind =
          .message ⟨additionsTo name added.flatten ++ additionsTo name extensions, ranges⟩ := by
  obtain ⟨same, distinct, -⟩ := foldlM_declare defined.declares
  rw [← same] at distinct
  rw [shape, withAdded, ← List.foldl_append, Schema.foldl_add distinct] at member
  obtain ⟨⟨full, before⟩, inside, extended⟩ := List.mem_map.mp member
  have bare := isBare_of_mem_declared defined.checked defined.declares inside
  cases before with
  | enum type =>
      obtain ⟨rfl, rfl⟩ := Definition.mk.inj extended
      exact .inl ⟨type, rfl, inside⟩
  | message message =>
      obtain ⟨fields, ranges⟩ := message
      obtain rfl : fields = [] := bare.1
      obtain ⟨rfl, rfl⟩ := Definition.mk.inj extended
      refine .inr ⟨ranges, inside, ?_⟩
      rw [List.nil_append, additionsTo_append]
  | framed type => exact bare.elim

/-- The fields of a message before any extend block are those that the files declare, in order. -/
theorem Defined.map_additionsTo (defined : Defined files declared added) (name : String) :
    (additionsTo name added.flatten).map (fun field => (field.tag, field.name)) =
      declaredFields files name := by
  rw [declaredFields, ← keys_of_additions_files defined.adds, additionsTo, List.filter_map,
    List.map_map, List.map_map]
  rfl

/-- No two fields that extend blocks add to one message are the same. -/
theorem Passes.nodup_extensions
    (passes : Passes files declared added wanted schema)
    (shape : schema = extensions.foldl Schema.add (withAdded declared added))
    {name : String}
    {message : MessageType}
    (member : ⟨name, .message message⟩ ∈ schema.definitions) :
    ((additionsTo name extensions).map (Field.named declared)).Nodup := by
  obtain ⟨type, impossible, -⟩ | ⟨ranges, -, same⟩ := passes.kind_cases shape member
  · cases impossible
  · have tags := (passes.wellFormed.messages name message member).tags
    rw [DefinitionKind.message.inj same] at tags
    have later := List.sublist_append_right (additionsTo name added.flatten)
      (additionsTo name extensions)
    exact Schema.nodup_named (List.Nodup.sublist (later.map Field.tag) tags)

theorem defineAlike_of_passes
    (perm : files.Perm others)
    (first : Passes files declared added wanted schema)
    (second : Passes others redeclared readded rewanted other) :
    DefineAlike files schema other := by
  obtain ⟨extensions, shape, extended⟩ := first.exists_extensions
  obtain ⟨reextensions, reshape, reextended⟩ := second.exists_extensions
  obtain ⟨definitions, reorders⟩ := reorders_of_perm perm first.toDefined second.toDefined
  have outline : schema.outline = declared.outline := by
    rw [shape, Schema.outline_foldl_add, outline_withAdded]
  have otherOutline : other.outline = redeclared.outline := by
    rw [reshape, Schema.outline_foldl_add, outline_withAdded]
  have distinct := reorders.otherDistinct
  constructor
  · exact (reorders.of_outlines outline otherOutline).names
  · intro name kind again member otherMember
    have firstCases := first.kind_cases shape member
    have secondCases := second.kind_cases reshape otherMember
    obtain ⟨type, rfl, inside⟩ | ⟨ranges, inside, rfl⟩ := firstCases
    · obtain ⟨retype, rfl, reinside⟩ | ⟨ranges, reinside, rfl⟩ := secondCases
      · have same := Schema.kind_eq_of_name distinct (definitions.mem_iff.mp inside) reinside
        obtain rfl := DefinitionKind.enum.inj same
        exact .enum
      · cases Schema.kind_eq_of_name distinct (definitions.mem_iff.mp inside) reinside
    · obtain ⟨type, rfl, reinside⟩ | ⟨reranges, reinside, rfl⟩ := secondCases
      · cases Schema.kind_eq_of_name distinct (definitions.mem_iff.mp inside) reinside
      · have same := Schema.kind_eq_of_name distinct (definitions.mem_iff.mp inside) reinside
        obtain ⟨-, rfl⟩ := MessageType.mk.inj (DefinitionKind.message.inj same)
        refine .message (first.map_additionsTo name) ?_ ?_
        · rw [Schema.named_of_outline outline, Schema.named_of_outline otherOutline]
          exact additionsTo_of_perm perm reorders first.declares first.adds second.adds name
        · rw [Schema.named_of_outline outline, Schema.named_of_outline otherOutline,
            List.perm_ext_iff_of_nodup (first.nodup_extensions shape member)
              (second.nodup_extensions reshape otherMember)]
          intro field
          exact ⟨added_of_perm perm first second extended reextended,
            added_of_perm perm.symm second first reextended extended⟩

/-- Files compile in every order or in none, and the schemas that they compile to define the same
names alike. -/
theorem compileFiles_perm (perm : files.Perm others) :
    ((∃ schema, compileFiles files = .ok schema) ↔
      ∃ other, compileFiles others = .ok other) ∧
    ∀ schema other, compileFiles files = .ok schema → compileFiles others = .ok other →
      DefineAlike files schema other := by
  have compiles {files others : List FileDecl} (perm : files.Perm others) {schema : Schema}
      (compiled : compileFiles files = .ok schema) :
      ∃ other, compileFiles others = .ok other := by
    obtain ⟨declared, added, wanted, passes⟩ := compileFiles_iff.mp compiled
    obtain ⟨redeclared, readded, rewanted, other, again⟩ := exists_passes_of_perm perm passes
    exact ⟨other, compileFiles_iff.mpr ⟨redeclared, readded, rewanted, again⟩⟩
  constructor
  · exact ⟨fun ⟨schema, compiled⟩ => compiles perm compiled,
      fun ⟨schema, compiled⟩ => compiles perm.symm compiled⟩
  · intro schema other compiled otherCompiled
    obtain ⟨declared, added, wanted, first⟩ := compileFiles_iff.mp compiled
    obtain ⟨redeclared, readded, rewanted, second⟩ := compileFiles_iff.mp otherCompiled
    exact defineAlike_of_passes perm first second

end Compiled

/-- A file that extends the message of `zooFile` too: by a field of its own type, and by a field
that `keeperFile` asks for in the same words. -/
def visitorFile : FileDecl :=
  ⟨.proto2, some "zoo", [],
    [⟨"Visitor", .first, [⟨"favorite", .first, "Animal", 1, .optional, none, none⟩], [], [], [], []⟩],
    [],
    [⟨"Animal", .first,
      [⟨"guest", .first, "Visitor", 103, .optional, none, none⟩,
       ⟨"ages", .first, "sint32", 101, .repeated, none, none⟩]⟩]⟩

/-- What the files compile to if the visitor comes first: the guest comes before the fields of
`keeperFile`, which asks for ages again. -/
def visitorFirstSchema : Schema :=
  ⟨[⟨"zoo.Visitor", .message ⟨[⟨"favorite", 1, .definition 1, .optional, false⟩], []⟩⟩,
    ⟨"zoo.Animal", .message
      ⟨[⟨"weights", 1, .scalar .int32, .repeated, true⟩,
        ⟨"meals", 2, .definition 2, .repeated, false⟩,
        ⟨"home", 3, .definition 3, .optional, false⟩,
        ⟨"guest", 103, .definition 0, .optional, false⟩,
        ⟨"ages", 101, .scalar .sint32, .repeated, false⟩,
        ⟨"lengths", 100, .scalar .sint32, .repeated, true⟩,
        ⟨"spare", 102, .definition 3, .optional, false⟩], [(100, 200)]⟩⟩,
    ⟨"zoo.Animal_meals_entry", .message
      ⟨[⟨"key", 1, .scalar .string, .optional, false⟩,
        ⟨"value", 2, .definition 4, .optional, false⟩], []⟩⟩,
    ⟨"zoo.Animal.Cage", .message ⟨[⟨"open", 1, .scalar .bool, .optional, false⟩], []⟩⟩,
    ⟨"zoo.Animal.Diet", .enum ⟨[⟨"LEAVES", 0⟩, ⟨"MEAT", 2⟩, ⟨"FISH", 1⟩]⟩⟩,
    ⟨"Keeper", .message
      ⟨[⟨"name", 1, .scalar .string, .required, false⟩,
        ⟨"rank", 2, .definition 6, .optional, false⟩], []⟩⟩,
    ⟨"Rank", .enum ⟨[⟨"JUNIOR", 0⟩, ⟨"SENIOR", 1⟩]⟩⟩]⟩

/-- What they compile to if the visitor comes last. -/
def visitorLastSchema : Schema :=
  ⟨(zooSchema.pushField "zoo.Animal" ⟨"guest", 103, .definition 6, .optional, false⟩).definitions ++
    [⟨"zoo.Visitor", .message ⟨[⟨"favorite", 1, .definition 0, .optional, false⟩], []⟩⟩]⟩

/-- The file can come first, before anything that it refers to, or last. -/
theorem compileFiles_perm_visitor :
    [visitorFile, zooFile, keeperFile].Perm [zooFile, keeperFile, visitorFile] ∧
    compileFiles [visitorFile, zooFile, keeperFile] = .ok visitorFirstSchema ∧
    compileFiles [zooFile, keeperFile, visitorFile] = .ok visitorLastSchema ∧
    DefineAlike [visitorFile, zooFile, keeperFile] visitorFirstSchema visitorLastSchema := by
  have perm : [visitorFile, zooFile, keeperFile].Perm [zooFile, keeperFile, visitorFile] :=
    (List.perm_append_singleton visitorFile [zooFile, keeperFile]).symm
  have first : compileFiles [visitorFile, zooFile, keeperFile] = .ok visitorFirstSchema :=
    eq_ok_of_toOption (by decide +kernel)
  have last : compileFiles [zooFile, keeperFile, visitorFile] = .ok visitorLastSchema :=
    eq_ok_of_toOption (by decide +kernel)
  exact ⟨perm, first, last, (compileFiles_perm perm).2 _ _ first last⟩

end ProtoWire.Proto
