import ProtoWire.Proofs.Proto.Lowering

/-!
Contract: the messages that the fields of a file are added to. Each message of a file and each
entry of a map has a definition of its own, so that unique names of definitions keep the fields
of different messages apart.

Owns:
- the definitions of a file, message by message;
- the messages that the fields of a message are added to;
- unique field numbers and names of all additions of a file.

Does not own: where unique names of definitions come from.
-/

namespace ProtoWire.Proto

/-! ### Definitions -/

/-- The definitions of a message, without those of the messages inside of it. -/
def ownDefinitions (named : String × MessageDecl) : List Definition :=
  bareMessage named.1 named.2.ranges ::
    (mapEntryDefinitions named.1 named.2.fields ++
      named.2.enums.map (EnumDecl.definition named.1))

mutual

private theorem mem_definitions {definition : Definition} :
    ∀ (scope : String) (message : MessageDecl), definition ∈ message.definitions scope →
      ∃ named ∈ message.withNames scope, definition ∈ ownDefinitions named
  | scope, ⟨name, position, fields, messages, enums, extensions, ranges⟩, member => by
      unfold MessageDecl.definitions at member
      unfold MessageDecl.withNames
      simp only [List.mem_cons, List.mem_append] at member
      rcases member with bare | entry | nested | enum
      · exact ⟨_, List.mem_cons_self, bare ▸ List.mem_cons_self⟩
      · exact ⟨_, List.mem_cons_self, List.mem_cons_of_mem _ (List.mem_append_left _ entry)⟩
      · obtain ⟨named, inside, own⟩ := mem_definitionsOfMessages (joinName scope name) messages nested
        exact ⟨named, List.mem_cons_of_mem _ inside, own⟩
      · exact ⟨_, List.mem_cons_self, List.mem_cons_of_mem _ (List.mem_append_right _ enum)⟩

private theorem mem_definitionsOfMessages {definition : Definition} :
    ∀ (scope : String) (messages : List MessageDecl),
      definition ∈ definitionsOfMessages scope messages →
        ∃ named ∈ messagesWithNames scope messages, definition ∈ ownDefinitions named
  | scope, [], member => nomatch member
  | scope, message :: others, member => by
      unfold definitionsOfMessages at member
      unfold messagesWithNames
      rcases List.mem_append.mp member with first | later
      · obtain ⟨named, inside, own⟩ := mem_definitions scope message first
        exact ⟨named, List.mem_append_left _ inside, own⟩
      · obtain ⟨named, inside, own⟩ := mem_definitionsOfMessages scope others later
        exact ⟨named, List.mem_append_right _ inside, own⟩

end

/-- A definition of a file is that of an enum at the top level, or belongs to a message. -/
theorem FileDecl.mem_definitions {file : FileDecl} {definition : Definition}
    (member : definition ∈ file.definitions) :
    (∃ named ∈ file.messagesWithNames, definition ∈ ownDefinitions named) ∨
      ∃ enum ∈ file.enums, definition = enum.definition file.scope := by
  rcases List.mem_append.mp member with inside | top
  · exact .inl (mem_definitionsOfMessages file.scope file.messages inside)
  · obtain ⟨enum, inside, same⟩ := List.mem_map.mp top
    exact .inr ⟨enum, inside, same.symm⟩

/-! ### Targets -/

/-- The messages that the fields of a message are added to: the message itself, and the entries
of its maps. -/
def targets (named : String × MessageDecl) : List String :=
  named.1 :: (named.2.fields.filter fun field => field.map.isSome).map fun field =>
    mapEntryName named.1 field.name

private theorem names_mapEntryDefinitions (message : String) (fields : List FieldDecl) :
    (mapEntryDefinitions message fields).map Definition.name =
      (fields.filter fun field => field.map.isSome).map fun field =>
        mapEntryName message field.name :=
  List.map_map

mutual

private theorem targets_sublist :
    ∀ (scope : String) (message : MessageDecl),
      ((message.withNames scope).flatMap targets).Sublist
        ((message.definitions scope).map Definition.name)
  | scope, ⟨name, position, fields, messages, enums, extensions, ranges⟩ => by
      have nested := targets_sublist_messages (joinName scope name) messages
      unfold MessageDecl.withNames MessageDecl.definitions
      rw [List.flatMap_cons, List.map_cons, List.map_append, List.map_append,
        names_mapEntryDefinitions]
      apply List.Sublist.cons_cons
      apply (List.Sublist.refl _).append
      exact nested.trans (List.sublist_append_left _ _)

private theorem targets_sublist_messages :
    ∀ (scope : String) (messages : List MessageDecl),
      ((messagesWithNames scope messages).flatMap targets).Sublist
        ((definitionsOfMessages scope messages).map Definition.name)
  | scope, [] => List.Sublist.slnil
  | scope, message :: others => by
      unfold messagesWithNames definitionsOfMessages
      rw [List.flatMap_append, List.map_append]
      exact (targets_sublist scope message).append (targets_sublist_messages scope others)

end

/-- Every target is the name of a definition of its own. -/
theorem FileDecl.targets_sublist (file : FileDecl) :
    (file.messagesWithNames.flatMap targets).Sublist (file.definitions.map Definition.name) := by
  unfold FileDecl.definitions
  rw [List.map_append]
  exact (targets_sublist_messages file.scope file.messages).trans (List.sublist_append_left _ _)

theorem targets_sublist_files (files : List FileDecl) :
    ((files.flatMap FileDecl.messagesWithNames).flatMap targets).Sublist
      ((files.flatMap FileDecl.definitions).map Definition.name) := by
  induction files with
  | nil => exact List.Sublist.slnil
  | cons file others inductionHypothesis =>
      rw [List.flatMap_cons, List.flatMap_cons, List.flatMap_append, List.map_append]
      exact file.targets_sublist.append inductionHypothesis

theorem FieldDecl.mem_keys {message : String} {field : FieldDecl} {key : String × Nat × String}
    (member : key ∈ field.keys message) :
    key = (message, field.tag, field.name) ∨
      field.map.isSome = true ∧ key.1 = mapEntryName message field.name := by
  unfold FieldDecl.keys at member
  split at member
  · exact .inl (List.mem_singleton.mp member)
  · rename_i mapped
    simp only [List.mem_cons, List.not_mem_nil, or_false] at member
    rw [mapped]
    rcases member with rfl | rfl | rfl
    · exact .inr ⟨rfl, rfl⟩
    · exact .inr ⟨rfl, rfl⟩
    · exact .inl rfl

private theorem mem_entries
    (message : String)
    {fields : List FieldDecl}
    {field : FieldDecl}
    (member : field ∈ fields)
    (mapped : field.map.isSome = true) :
    mapEntryName message field.name ∈
      (fields.filter fun field => field.map.isSome).map fun field =>
        mapEntryName message field.name :=
  List.mem_map_of_mem (f := fun field => mapEntryName message field.name)
    (List.mem_filter.mpr ⟨member, mapped⟩)

theorem mem_targets_of_mem_keys {named : String × MessageDecl} {key : String × Nat × String}
    (member : key ∈ messageKeys named) :
    key.1 ∈ targets named := by
  obtain ⟨field, inside, own⟩ := List.mem_flatMap.mp member
  rcases FieldDecl.mem_keys own with rfl | ⟨mapped, same⟩
  · exact List.mem_cons_self
  · rw [same]
    exact List.mem_cons_of_mem _ (mem_entries named.1 inside mapped)

/-! ### Unique keys -/

section Views

variable
  {κ : Type}
  {view : Nat × String → κ}

/-- A key that shows of a field what the view shows. -/
def viewKey (view : Nat × String → κ) (key : String × Nat × String) : String × κ :=
  (key.1, view key.2)

/-- The additions of one field differ in their targets, or they are the halves of an entry. -/
private theorem nodup_fieldKeys
    (entry : view (1, "key") ≠ view (2, "value"))
    {message : String}
    {field : FieldDecl}
    (apart : field.map.isSome = true → message ≠ mapEntryName message field.name) :
    (field.keys message).Pairwise fun left right => viewKey view left ≠ viewKey view right := by
  unfold FieldDecl.keys
  split
  · exact List.pairwise_singleton _ _
  · rename_i mapped
    have different : mapEntryName message field.name ≠ message := by
      rw [mapped] at apart
      exact (apart rfl).symm
    simp [viewKey, entry, different]

/-- If a view tells the fields of a message apart, it tells all its additions apart. -/
theorem nodup_messageKeys
    (entry : view (1, "key") ≠ view (2, "value"))
    {named : String × MessageDecl}
    (distinct : (named.2.fields.map fun field => view (field.tag, field.name)).Nodup)
    (apart : (targets named).Nodup) :
    ((messageKeys named).map (viewKey view)).Nodup := by
  obtain ⟨message, declaration⟩ := named
  obtain ⟨own, entries⟩ := List.nodup_cons.mp apart
  have noEntry {field : FieldDecl} (member : field ∈ declaration.fields)
      (mapped : field.map.isSome = true) : message ≠ mapEntryName message field.name := by
    intro same
    have inside := mem_entries message member mapped
    rw [← same] at inside
    exact own inside
  rw [List.Nodup, List.pairwise_map, List.pairwise_filter] at entries
  rw [List.Nodup, List.pairwise_map] at distinct
  rw [List.Nodup, List.pairwise_map, messageKeys, List.pairwise_flatMap]
  constructor
  · intro field member
    exact nodup_fieldKeys entry (noEntry member)
  · refine (distinct.and entries).imp_of_mem ?_
    intro first second firstMember secondMember different left leftMember right rightMember same
    have sameTarget : left.1 = right.1 := (Prod.mk.inj same).1
    have sameView : view left.2 = view right.2 := (Prod.mk.inj same).2
    rcases FieldDecl.mem_keys leftMember with rfl | ⟨leftMapped, leftEntry⟩
    · rcases FieldDecl.mem_keys rightMember with rfl | ⟨rightMapped, rightEntry⟩
      · exact different.1 sameView
      · exact noEntry secondMember rightMapped (sameTarget.trans rightEntry)
    · rcases FieldDecl.mem_keys rightMember with rfl | ⟨rightMapped, rightEntry⟩
      · exact noEntry firstMember leftMapped (sameTarget.symm.trans leftEntry)
      · exact different.2 leftMapped rightMapped
          (leftEntry.symm.trans (sameTarget.trans rightEntry))

/-- If a view tells the fields of each message apart, it tells all additions apart. -/
theorem nodup_keys
    (entry : view (1, "key") ≠ view (2, "value"))
    {messages : List (String × MessageDecl)}
    (distinct : ∀ named ∈ messages,
      (named.2.fields.map fun field => view (field.tag, field.name)).Nodup)
    (apart : (messages.flatMap targets).Nodup) :
    ((messages.flatMap messageKeys).map (viewKey view)).Nodup := by
  obtain ⟨single, pairs⟩ := List.pairwise_flatMap.mp apart
  rw [List.Nodup, List.pairwise_map, List.pairwise_flatMap]
  constructor
  · intro named member
    exact List.pairwise_map.mp (nodup_messageKeys entry (distinct named member) (single named member))
  · refine pairs.imp ?_
    intro first second different left leftMember right rightMember same
    have sameTarget : left.1 = right.1 := (Prod.mk.inj same).1
    exact different left.1 (mem_targets_of_mem_keys leftMember) right.1
      (mem_targets_of_mem_keys rightMember) sameTarget

end Views

end ProtoWire.Proto
