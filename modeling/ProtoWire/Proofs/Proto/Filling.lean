import ProtoWire.Proofs.Proto.Compilation
import ProtoWire.Proofs.Proto.Image

/-!
Contract: every message gets the fields that are declared for it, in their order, and every map
entry its key and its value. Fields are added by the names of messages, one file after the other,
and unique names bring them where they belong.

Owns:
- what a declaration adds, to its message and to the entry of its map;
- which of the additions of many declarations reach a name;
- the fields that a message and its entries get from all files.

Does not own: the fields that extend blocks add.
-/

namespace ProtoWire

/-! ### Additions to a name -/

theorem additionsTo_append (name : String) (first second : List (String × Field)) :
    additionsTo name (first ++ second) = additionsTo name first ++ additionsTo name second := by
  simp [additionsTo]

theorem additionsTo_cons_self (name : String) (field : Field) (others : List (String × Field)) :
    additionsTo name ((name, field) :: others) = field :: additionsTo name others := by
  simp [additionsTo]

theorem additionsTo_cons_ne
    {name target : String}
    (different : target ≠ name)
    (field : Field)
    (others : List (String × Field)) :
    additionsTo name ((target, field) :: others) = additionsTo name others := by
  simp [additionsTo, different]

theorem mem_additionsTo {name : String} {additions : List (String × Field)} {field : Field} :
    field ∈ additionsTo name additions ↔ (name, field) ∈ additions := by
  simp [additionsTo]

theorem additionsTo_eq_nil {name : String} {additions : List (String × Field)} :
    additionsTo name additions = [] ↔ ∀ addition ∈ additions, addition.1 ≠ name := by
  simp [additionsTo]

end ProtoWire

namespace ProtoWire.Proto

open Outcome

section Runs

variable
  {ε α : Type}
  {additions : α → Except ε (List (String × Field))}
  {items : List α}
  {results : List (List (String × Field))}
  {name : String}

private theorem additionsTo_flatten_eq_nil
    (foreign : ∀ item ∈ items, ∀ result, additions item = .ok result →
      additionsTo name result = [])
    (run : items.mapM additions = .ok results) :
    additionsTo name results.flatten = [] := by
  rw [additionsTo_eq_nil]
  refine forall_mem_flatten_mapM (fun addition => addition.1 ≠ name) ?_ run
  exact fun item member result itemOk => additionsTo_eq_nil.mp (foreign item member result itemOk)

/-- If only one of many items adds to a name, what is added to the name comes from this item. -/
theorem additionsTo_flatten
    {reach : α → List String}
    (apart : (items.flatMap reach).Nodup)
    (foreign : ∀ item ∈ items, name ∉ reach item → ∀ result, additions item = .ok result →
      additionsTo name result = [])
    (run : items.mapM additions = .ok results)
    {item : α}
    (member : item ∈ items)
    (reached : name ∈ reach item)
    {own : List (String × Field)}
    (ok : additions item = .ok own) :
    additionsTo name results.flatten = additionsTo name own := by
  induction items generalizing results with
  | nil => cases member
  | cons head others inductionHypothesis =>
      obtain ⟨first, rest, firstOk, restOk, rfl⟩ := mapM_cons_eq_ok.mp run
      rw [List.flatMap_cons, List.nodup_append] at apart
      obtain ⟨-, othersApart, separate⟩ := apart
      have foreignOthers (other : α) (inside : other ∈ others) :=
        foreign other (List.mem_cons_of_mem head inside)
      rw [List.flatten_cons, additionsTo_append]
      rcases List.mem_cons.mp member with rfl | later
      · have elsewhere : additionsTo name rest.flatten = [] := by
          refine additionsTo_flatten_eq_nil (fun other inside => ?_) restOk
          apply foreignOthers other inside
          intro again
          exact separate name reached name (List.mem_flatMap.mpr ⟨other, inside, again⟩) rfl
        obtain rfl : first = own := Except.ok.inj (firstOk.symm.trans ok)
        rw [elsewhere, List.append_nil]
      · have elsewhere : additionsTo name first = [] := by
          refine foreign head List.mem_cons_self (fun again => ?_) first firstOk
          exact separate name again name (List.mem_flatMap.mpr ⟨item, later, reached⟩) rfl
        rw [elsewhere, List.nil_append]
        exact inductionHypothesis othersApart foreignOthers restOk later

/-- If each item adds one field to a name, these fields stand in the order of the items. -/
private theorem forall₂_additionsTo
    {Adds : α → Field → Prop}
    (each : ∀ item ∈ items, ∀ result, additions item = .ok result →
      ∃ field, additionsTo name result = [field] ∧ Adds item field)
    (run : items.mapM additions = .ok results) :
    List.Forall₂ Adds items (additionsTo name results.flatten) := by
  induction items generalizing results with
  | nil =>
      obtain rfl : [] = results := Except.ok.inj run
      exact .nil
  | cons head others inductionHypothesis =>
      obtain ⟨first, rest, firstOk, restOk, rfl⟩ := mapM_cons_eq_ok.mp run
      obtain ⟨field, single, adds⟩ := each head List.mem_cons_self first firstOk
      rw [List.flatten_cons, additionsTo_append, single]
      refine .cons adds (inductionHypothesis (fun other inside => ?_) restOk)
      exact each other (List.mem_cons_of_mem head inside)

end Runs

/-! ### One field -/

section Fields

variable
  {schema : Schema}
  {edition : Edition}
  {message : String}
  {declaration : FieldDecl}
  {added : List (String × Field)}

theorem FieldDecl.lowersTo_of_lower
    {scope : String}
    {lowered : Field}
    (ok : declaration.lower schema edition scope message = .ok lowered) :
    declaration.LowersTo schema edition scope lowered := by
  unfold FieldDecl.lower FieldDecl.lowerAs at ok
  split at ok
  · cases ok
  · rename_i type resolved
    obtain rfl := Except.ok.inj ok
    obtain ⟨resolved, -⟩ := Option.filter_eq_some_iff.mp resolved
    refine ⟨rfl, rfl, declaration.label.standsFor_lower, resolved, ?_⟩
    rw [Schema.isPackable_iff]
    cases declaration.packed <;> simp [and_assoc]

/-- The halves of an entry are optional, and nothing says that they are packed. -/
private theorem eq_of_lower_entryField
    {half type target : String}
    {tag : Nat}
    {lowered : Field}
    (ok : (entryField declaration half tag type).lower schema edition message target =
      .ok lowered) :
    ∃ meant, resolveType schema message type = some meant ∧
      lowered = ⟨half, tag, meant, .optional, false⟩ := by
  have lowers := FieldDecl.lowersTo_of_lower ok
  obtain ⟨name, number, meant, label, packed⟩ := lowered
  obtain ⟨rfl, rfl, isOptional, resolved, runs⟩ := lowers
  cases isOptional
  have single : packed = false := Bool.eq_false_iff.mpr fun run => nomatch (runs.mp run).1
  exact ⟨meant, resolved, by rw [single]⟩

theorem mapEntryName_ne (message field : String) : mapEntryName message field ≠ message := by
  intro same
  have length := congrArg String.length same
  simp only [mapEntryName, String.length_append] at length
  have entry : "_entry".length = 6 := rfl
  omega

/-- A declaration adds one field to its message. -/
private theorem defines_of_additions
    (keyword : declaration.map.isSome = true →
      Scalar.ofName? (mapEntryName message declaration.name) = none)
    (ok : declaration.additions schema edition message = .ok added) :
    ∃ field, additionsTo message added = [field] ∧
      declaration.Defines schema edition message field := by
  unfold FieldDecl.additions at ok
  unfold FieldDecl.Defines
  cases mapped : declaration.map with
  | none =>
      simp only [mapped] at ok
      obtain ⟨lowered, lowers, equal⟩ := bind_eq_ok.mp ok
      obtain rfl := Except.ok.inj equal
      exact ⟨lowered, additionsTo_same, FieldDecl.lowersTo_of_lower lowers⟩
  | some map =>
      simp only [mapped] at ok
      obtain ⟨key, -, ok⟩ := bind_eq_ok.mp ok
      obtain ⟨value, -, ok⟩ := bind_eq_ok.mp ok
      obtain ⟨type, resolved, equal⟩ := bind_eq_ok.mp ok
      obtain rfl := Except.ok.inj equal
      have other := mapEntryName_ne message declaration.name
      rw [additionsTo_cons_ne other, additionsTo_cons_ne other, additionsTo_same]
      refine ⟨_, rfl, ?_⟩
      rw [mapped] at keyword
      have resolved := mapError_eq_ok.mp resolved
      cases type with
      | scalar type =>
          simp only [Schema.resolve, keyword rfl] at resolved
          split at resolved <;> cases resolved
      | definition index =>
          obtain ⟨kind, found⟩ := Schema.definition?_of_resolve resolved
          exact ⟨index, kind, found, rfl⟩

/-- A declaration of a map field adds a key and a value to the entry of the map. -/
private theorem definesEntry_of_additions
    (mapped : declaration.map.isSome = true)
    (ok : declaration.additions schema edition message = .ok added) :
    declaration.DefinesEntry schema message
      ⟨mapEntryName message declaration.name,
        .message ⟨additionsTo (mapEntryName message declaration.name) added, []⟩⟩ := by
  unfold FieldDecl.additions at ok
  split at ok
  · rename_i plain
    rw [plain] at mapped
    cases mapped
  · rename_i map mapped
    obtain ⟨key, keyLowers, ok⟩ := bind_eq_ok.mp ok
    obtain ⟨value, valueLowers, ok⟩ := bind_eq_ok.mp ok
    obtain ⟨type, -, equal⟩ := bind_eq_ok.mp ok
    obtain rfl := Except.ok.inj equal
    have other := (mapEntryName_ne message declaration.name).symm
    rw [additionsTo_cons_self, additionsTo_cons_self, additionsTo_other other]
    obtain ⟨keyType, keyMeans, rfl⟩ := eq_of_lower_entryField keyLowers
    obtain ⟨valueType, valueMeans, rfl⟩ := eq_of_lower_entryField valueLowers
    exact ⟨map, keyType, valueType, mapped, keyMeans, valueMeans, rfl⟩

/-- A declaration adds nothing to other messages and to the entries of other maps. -/
private theorem additionsTo_other_field
    {name : String}
    (ok : declaration.additions schema edition message = .ok added)
    (notMessage : name ≠ message)
    (notEntry : declaration.map.isSome = true → name ≠ mapEntryName message declaration.name) :
    additionsTo name added = [] := by
  rw [additionsTo_eq_nil]
  intro addition member
  have key : additionKey addition ∈ declaration.keys message := by
    rw [← keys_of_additions ok]
    exact List.mem_map_of_mem member
  rcases FieldDecl.mem_keys key with own | ⟨mapped, entry⟩
  · exact fun same => notMessage (same.symm.trans (congrArg Prod.fst own))
  · exact fun same => notEntry mapped (same.symm.trans entry)

end Fields

/-! ### Messages -/

/-- Some additions bring to a message the fields that are declared in it, and to the entries of its
maps their keys and values. -/
structure FilledBy
    (schema : Schema)
    (edition : Edition)
    (additions : List (String × Field))
    (named : String × MessageDecl) : Prop where
  own : List.Forall₂ (FieldDecl.Defines schema edition named.1) named.2.fields
    (additionsTo named.1 additions)
  entries : ∀ declaration ∈ named.2.fields, declaration.map.isSome = true →
    declaration.DefinesEntry schema named.1
      ⟨mapEntryName named.1 declaration.name,
        .message ⟨additionsTo (mapEntryName named.1 declaration.name) additions, []⟩⟩

section Messages

variable
  {schema : Schema}
  {edition : Edition}
  {named : String × MessageDecl}
  {added : List (String × Field)}

/-- The entries that a declaration in a message needs. -/
private def entryNames (message : String) (declaration : FieldDecl) : List String :=
  if declaration.map.isSome then [mapEntryName message declaration.name] else []

private theorem flatMap_entryNames (message : String) (fields : List FieldDecl) :
    fields.flatMap (entryNames message) =
      (fields.filter fun field => field.map.isSome).map fun field =>
        mapEntryName message field.name := by
  induction fields with
  | nil => rfl
  | cons field others inductionHypothesis =>
      rw [List.flatMap_cons, inductionHypothesis, entryNames]
      cases mapped : field.map.isSome <;> simp [mapped]

private theorem filledBy_of_messageAdditions
    (apart : (targets named).Nodup)
    (keywords : ∀ name ∈ targets named, Scalar.ofName? name = none)
    (ok : messageAdditions edition schema named = .ok added) :
    FilledBy schema edition added named := by
  unfold messageAdditions at ok
  obtain ⟨results, run, rfl⟩ := map_eq_ok.mp ok
  have entry {declaration : FieldDecl}
      (member : declaration ∈ named.2.fields)
      (mapped : declaration.map.isSome = true) :
      mapEntryName named.1 declaration.name ∈ targets named :=
    List.mem_cons_of_mem _ <| List.mem_map_of_mem
      (f := fun field : FieldDecl => mapEntryName named.1 field.name)
      (List.mem_filter.mpr ⟨member, mapped⟩)
  constructor
  · refine forall₂_additionsTo (fun declaration member result fieldOk => ?_) run
    exact defines_of_additions (fun mapped => keywords _ (entry member mapped)) fieldOk
  · intro declaration member mapped
    obtain ⟨own, ownOk⟩ := exists_of_mapM run member
    have entriesApart : (named.2.fields.flatMap (entryNames named.1)).Nodup := by
      rw [flatMap_entryNames]
      exact (List.nodup_cons.mp apart).2
    have reached : mapEntryName named.1 declaration.name ∈ entryNames named.1 declaration := by
      rw [entryNames, if_pos mapped]
      exact List.mem_singleton.mpr rfl
    rw [additionsTo_flatten entriesApart ?_ run member reached ownOk]
    · exact definesEntry_of_additions mapped ownOk
    · intro other _ unreached result otherOk
      refine additionsTo_other_field otherOk (mapEntryName_ne _ _) fun otherMapped same => ?_
      rw [entryNames, if_pos otherMapped, same] at unreached
      exact unreached (List.mem_singleton.mpr rfl)

/-- What is added to the names that a message needs is all that matters. -/
private theorem FilledBy.congr
    {others : List (String × Field)}
    (filled : FilledBy schema edition added named)
    (same : ∀ name ∈ targets named, additionsTo name others = additionsTo name added) :
    FilledBy schema edition others named := by
  constructor
  · rw [same _ List.mem_cons_self]
    exact filled.own
  · intro declaration member mapped
    rw [same _ (List.mem_cons_of_mem _ (List.mem_map_of_mem
      (f := fun field : FieldDecl => mapEntryName named.1 field.name)
      (List.mem_filter.mpr ⟨member, mapped⟩)))]
    exact filled.entries declaration member mapped

theorem FilledBy.transport
    {other : Schema}
    (same : other.outline = schema.outline)
    (filled : FilledBy schema edition added named) :
    FilledBy other edition added named where
  own := filled.own.imp fun _ _ defines => defines.transport same
  entries := fun declaration member mapped =>
    (filled.entries declaration member mapped).transport same

end Messages

/-! ### Files -/

section Files

variable
  {files : List FileDecl}
  {declared : Schema}
  {added : List (List (String × Field))}

theorem additionsTo_other_messages
    {messages : List (String × MessageDecl)}
    {additions : List (String × Field)}
    (keys : additions.map additionKey = messages.flatMap messageKeys)
    {name : String}
    (unreached : name ∉ messages.flatMap targets) :
    additionsTo name additions = [] := by
  rw [additionsTo_eq_nil]
  rintro addition member rfl
  have key : additionKey addition ∈ messages.flatMap messageKeys := by
    rw [← keys]
    exact List.mem_map_of_mem member
  obtain ⟨named, inside, own⟩ := List.mem_flatMap.mp key
  exact unreached (List.mem_flatMap.mpr ⟨named, inside, mem_targets_of_mem_keys own⟩)

/-- The additions of a file reach the messages of the file. -/
private theorem additionsTo_of_file
    {file : FileDecl}
    (apart : (file.messagesWithNames.flatMap targets).Nodup)
    {additions own : List (String × Field)}
    (ok : file.additions declared = .ok additions)
    {named : String × MessageDecl}
    (member : named ∈ file.messagesWithNames)
    (ownOk : messageAdditions file.edition declared named = .ok own)
    {name : String}
    (reached : name ∈ targets named) :
    additionsTo name additions = additionsTo name own := by
  unfold FileDecl.additions at ok
  obtain ⟨results, run, rfl⟩ := map_eq_ok.mp ok
  refine additionsTo_flatten apart (fun other inside unreached result otherOk => ?_) run member
    reached ownOk
  have keys : result.map additionKey = [other].flatMap messageKeys := by
    rw [List.flatMap_singleton]
    exact keys_of_messageAdditions otherOk
  exact additionsTo_other_messages keys (List.flatMap_singleton .. ▸ unreached)

/-- The additions of all files fill every message of every file. -/
theorem filledBy_of_additions
    (declares : (files.flatMap FileDecl.definitions).foldlM declare .empty = .ok declared)
    (adds : files.mapM (FileDecl.additions declared) = .ok added)
    {file : FileDecl}
    (inside : file ∈ files)
    {named : String × MessageDecl}
    (member : named ∈ file.messagesWithNames) :
    FilledBy declared file.edition added.flatten named := by
  obtain ⟨-, distinct, keywords⟩ := foldlM_declare declares
  have sublist := targets_sublist_files files
  have apart := List.Nodup.sublist sublist distinct
  rw [List.flatMap_assoc] at apart sublist
  obtain ⟨additions, fileOk⟩ := exists_of_mapM adds inside
  have fileApart : (file.messagesWithNames.flatMap targets).Nodup :=
    (List.pairwise_flatMap.mp apart).1 file inside
  obtain ⟨own, ownOk⟩ : ∃ own, messageAdditions file.edition declared named = .ok own := by
    have run := fileOk
    unfold FileDecl.additions at run
    obtain ⟨results, run, -⟩ := map_eq_ok.mp run
    exact exists_of_mapM run member
  have reach {name : String} (reached : name ∈ targets named) :
      name ∈ file.messagesWithNames.flatMap targets :=
    List.mem_flatMap.mpr ⟨named, member, reached⟩
  have filled : FilledBy declared file.edition own named := by
    apply filledBy_of_messageAdditions _ _ ownOk
    · exact (List.pairwise_flatMap.mp fileApart).1 named member
    · intro name reached
      exact keywords name (sublist.subset (List.mem_flatMap.mpr ⟨file, inside, reach reached⟩))
  refine filled.congr fun name reached => ?_
  have fromFile := additionsTo_flatten apart (fun other _ unreached result otherOk =>
    additionsTo_other_messages (keys_of_fileAdditions otherOk) unreached) adds inside
    (reach reached) fileOk
  rw [fromFile, additionsTo_of_file fileApart fileOk member ownOk reached]

end Files

end ProtoWire.Proto
