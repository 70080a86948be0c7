import ProtoWire.Proofs.Proto.Legality
import ProtoWire.Proofs.Proto.Targets
import ProtoWire.Proto.Compilation

/-!
Contract: compiled schemas obey the rules on schemas. Every pass keeps them: the declared
definitions have unique names, the fields of a legal file have unique numbers and names, and
extensions add a field only under a new number and a new name.

Owns:
- the schema after each pass;
- the rules on compiled schemas, also after frames are registered.

Does not own: how much of a source a compiled schema holds.
-/

namespace ProtoWire.Proto

open Outcome

/-! ### Declared definitions -/

/-- A definition before fields are added, as the checks leave it. -/
def IsBare (definition : Definition) : Prop :=
  match definition.kind with
  | .message type =>
      type.fields = [] ∧
        ∀ range ∈ type.extensionRanges,
          ProtoWire.Tag.min ≤ range.1 ∧ range.2 ≤ ProtoWire.Tag.max
  | .enum type => type.WellFormed
  | .framed _ => False

private theorem isBare_enum
    {scope : String}
    {enum : EnumDecl}
    (distinct : (enum.values.map EnumValueDecl.name).Nodup) :
    IsBare (enum.definition scope) := by
  change (List.map EnumValue.name (enum.values.map _)).Nodup
  rw [List.map_map]
  exact distinct

private theorem isBare_of_mem_ownDefinitions
    {named : String × MessageDecl}
    (legal : named.2.Legal)
    {definition : Definition}
    (member : definition ∈ ownDefinitions named) :
    IsBare definition := by
  rcases List.mem_cons.mp member with rfl | inside
  · refine ⟨rfl, ?_⟩
    intro range rangeMember
    obtain ⟨declared, declaredMember, rfl⟩ := List.mem_map.mp rangeMember
    exact legal.ranges declared declaredMember
  · rcases List.mem_append.mp inside with entry | enum
    · obtain ⟨field, -, rfl⟩ := List.mem_map.mp entry
      exact ⟨rfl, nofun⟩
    · obtain ⟨declared, declaredMember, rfl⟩ := List.mem_map.mp enum
      exact isBare_enum (legal.enums declared declaredMember)

theorem FileDecl.isBare_of_mem_definitions
    {file : FileDecl}
    (checked : file.check = .ok ())
    {definition : Definition}
    (member : definition ∈ file.definitions) :
    IsBare definition := by
  rcases FileDecl.mem_definitions member with ⟨named, inside, own⟩ | ⟨enum, inside, rfl⟩
  · exact isBare_of_mem_ownDefinitions (FileDecl.legal_messages checked named inside) own
  · exact isBare_enum (FileDecl.distinct_enums checked enum inside)

theorem declare_eq_ok {schema next : Schema} {definition : Definition}
    (ok : declare schema definition = .ok next) :
    definition.name ∉ schema.definitions.map Definition.name ∧
      Scalar.ofName? definition.name = none ∧
        next = ⟨schema.definitions ++ [definition]⟩ := by
  unfold declare at ok
  split at ok
  · cases ok
  · exact Schema.register_eq_ok.mp (mapError_eq_ok.mp ok)

/-- The declared definitions stand in their order, under unique names. -/
theorem foldlM_declare {definitions : List Definition} {schema : Schema}
    (ok : definitions.foldlM declare .empty = .ok schema) :
    schema.definitions = definitions ∧
      (definitions.map Definition.name).Nodup ∧
        ∀ name ∈ definitions.map Definition.name, Scalar.ofName? name = none := by
  have start : Schema.empty.definitions = [] ∧
      (([] : List Definition).map Definition.name).Nodup ∧
        ∀ name ∈ ([] : List Definition).map Definition.name, Scalar.ofName? name = none :=
    ⟨rfl, List.nodup_nil, fun _ member => nomatch member⟩
  refine foldlM_tracks
    (fun schema past => schema.definitions = past ∧ (past.map Definition.name).Nodup ∧
      ∀ name ∈ past.map Definition.name, Scalar.ofName? name = none) ?_ start ok
  rintro schema past definition next ⟨rfl, distinct, keywords⟩ step
  obtain ⟨fresh, keyword, rfl⟩ := declare_eq_ok step
  refine ⟨rfl, Keys.nodup_append_singleton distinct fresh, ?_⟩
  intro name member
  rw [List.map_append] at member
  rcases List.mem_append.mp member with before | added
  · exact keywords name before
  · obtain rfl := List.mem_singleton.mp added
    exact keyword

/-! ### Defined fields -/

/-- Additions that a view tells apart are told apart within one message. -/
private theorem nodup_additionsTo
    {κ : Type}
    {view : Nat × String → κ}
    {additions : List (String × Field)}
    (distinct : ((additions.map additionKey).map (viewKey view)).Nodup)
    (name : String) :
    ((additionsTo name additions).map fun field => view (field.tag, field.name)).Nodup := by
  rw [List.map_map, List.Nodup, List.pairwise_map] at distinct
  rw [additionsTo, List.map_map, List.Nodup, List.pairwise_map, List.pairwise_filter]
  refine distinct.imp ?_
  intro first second different firstTarget secondTarget same
  apply different
  exact Prod.ext ((eq_of_beq firstTarget).trans (eq_of_beq secondTarget).symm) same

private theorem mem_of_mem_additionsTo
    {name : String}
    {additions : List (String × Field)}
    {field : Field}
    (member : field ∈ additionsTo name additions) :
    ∃ addition ∈ additions, addition.2 = field := by
  obtain ⟨addition, inside, same⟩ := List.mem_map.mp member
  exact ⟨addition, (List.mem_filter.mp inside).1, same⟩

section Definitions

variable
  {files : List FileDecl}
  {declared : Schema}

theorem isBare_of_mem_declared
    (checked : ∀ file ∈ files, file.check = .ok ())
    (declares : (files.flatMap FileDecl.definitions).foldlM declare .empty = .ok declared)
    {definition : Definition}
    (member : definition ∈ declared.definitions) :
    IsBare definition := by
  rw [(foldlM_declare declares).1] at member
  obtain ⟨file, inside, own⟩ := List.mem_flatMap.mp member
  exact FileDecl.isBare_of_mem_definitions (checked file inside) own

private theorem unframed_of_bare
    (bare : ∀ definition ∈ declared.definitions, IsBare definition) :
    ∀ definition ∈ declared.definitions, ∀ type, definition.kind ≠ .framed type := by
  intro definition member type framed
  have rules := bare definition member
  rw [IsBare, framed] at rules
  exact rules

private theorem legal_of_mem_messages
    (checked : ∀ file ∈ files, file.check = .ok ())
    {named : String × MessageDecl}
    (member : named ∈ files.flatMap FileDecl.messagesWithNames) :
    named.2.Legal := by
  obtain ⟨file, inside, own⟩ := List.mem_flatMap.mp member
  exact FileDecl.legal_messages (checked file inside) named own

theorem keys_of_additions_files
    {added : List (List (String × Field))}
    (adds : files.mapM (FileDecl.additions declared) = .ok added) :
    added.flatten.map additionKey =
      (files.flatMap FileDecl.messagesWithNames).flatMap messageKeys := by
  rw [List.flatMap_assoc]
  exact flatten_mapM (fun file _ result fileOk => keys_of_fileAdditions fileOk) adds

/-- The additions to one message differ in every view that tells declared fields apart. -/
private theorem nodup_added
    {κ : Type}
    (view : Nat × String → κ)
    (entry : view (1, "key") ≠ view (2, "value"))
    (distinct : ∀ named ∈ files.flatMap FileDecl.messagesWithNames,
      (named.2.fields.map fun field => view (field.tag, field.name)).Nodup)
    (declares : (files.flatMap FileDecl.definitions).foldlM declare .empty = .ok declared)
    {added : List (List (String × Field))}
    (adds : files.mapM (FileDecl.additions declared) = .ok added)
    (name : String) :
    ((additionsTo name added.flatten).map fun field => view (field.tag, field.name)).Nodup := by
  apply nodup_additionsTo
  rw [keys_of_additions_files adds]
  apply nodup_keys entry distinct
  exact List.Pairwise.sublist (targets_sublist_files files) (foldlM_declare declares).2.1

/-- A declared message obeys the rules when it has got its fields. -/
private theorem wellFormed_of_mem_added
    (checked : ∀ file ∈ files, file.check = .ok ())
    (declares : (files.flatMap FileDecl.definitions).foldlM declare .empty = .ok declared)
    {added : List (List (String × Field))}
    (adds : files.mapM (FileDecl.additions declared) = .ok added)
    {name : String}
    {message : MessageType}
    (member :
      ⟨name, .message message⟩ ∈ (added.flatten.foldl Schema.add declared).definitions) :
    message.WellFormed (added.flatten.foldl Schema.add declared) := by
  obtain ⟨same, distinct, -⟩ := foldlM_declare declares
  rw [← same] at distinct
  have bare (definition : Definition) (inside : definition ∈ declared.definitions) :=
    isBare_of_mem_declared checked declares inside
  have legal (named : String × MessageDecl)
      (inside : named ∈ files.flatMap FileDecl.messagesWithNames) :=
    legal_of_mem_messages checked inside
  have fields : ∀ addition ∈ added.flatten, addition.2.WellFormed declared := by
    refine forall_mem_flatten_mapM (fun addition => addition.2.WellFormed declared) ?_ adds
    intro file inside result fileOk
    exact wellFormed_of_fileAdditions (unframed_of_bare bare)
      (fun named own => (legal named (List.mem_flatMap.mpr ⟨file, inside, own⟩)).bounds) fileOk
  have outline := Schema.outline_foldl_add declared added.flatten
  rw [Schema.foldl_add distinct added.flatten] at member
  obtain ⟨definition, inside, extended⟩ := List.mem_map.mp member
  obtain ⟨before, rfl, rfl⟩ := Definition.extend_eq_message extended
  obtain ⟨empty, ranges⟩ := bare _ inside
  rw [empty, List.nil_append]
  constructor
  · exact nodup_added Prod.fst (by decide) (fun named inside => (legal named inside).tags)
      declares adds name
  · exact nodup_added Prod.snd (by decide) (fun named inside => (legal named inside).names)
      declares adds name
  · intro field added
    obtain ⟨addition, present, rfl⟩ := mem_of_mem_additionsTo added
    exact (fields addition present).transport outline
  · exact ranges

/-- Legal fields of legal messages, added to the declared definitions, give a schema that obeys
the rules. -/
theorem wellFormed_foldl_add
    (checked : ∀ file ∈ files, file.check = .ok ())
    (declares : (files.flatMap FileDecl.definitions).foldlM declare .empty = .ok declared)
    {added : List (List (String × Field))}
    (adds : files.mapM (FileDecl.additions declared) = .ok added) :
    (added.flatten.foldl Schema.add declared).WellFormed := by
  obtain ⟨same, distinct, keywords⟩ := foldlM_declare declares
  rw [← same] at distinct keywords
  have bare (definition : Definition) (member : definition ∈ declared.definitions) :=
    isBare_of_mem_declared checked declares member
  have outline := Schema.outline_foldl_add declared added.flatten
  have names := Schema.names_of_outline outline
  constructor
  · rw [names]
    exact distinct
  · rw [names]
    exact keywords
  · intro name message member
    exact wellFormed_of_mem_added checked declares adds member
  · intro name enum member
    rw [Schema.foldl_add distinct added.flatten] at member
    obtain ⟨definition, inside, extended⟩ := List.mem_map.mp member
    obtain rfl := Definition.extend_eq_enum extended
    exact bare _ inside
  · rw [← Schema.hasSoundFrames_outline, outline, Schema.hasSoundFrames_outline]
    intro definition member type framed
    exact absurd framed (unframed_of_bare bare definition member type)

end Definitions

/-! ### Extensions -/

/-- The schema that a change leaves, whether it succeeds or fails. -/
def Merge.leaves (merge : Merge) (schema : Schema) : Schema :=
  match merge schema with
  | .ok _ after => after
  | .error _ after => after

/-- What each change of a sequence keeps, the whole sequence keeps. -/
theorem Merge.leaves_forM
    {α : Type}
    {change : α → Merge}
    {items : List α}
    (Holds : Schema → Prop)
    (kept : ∀ item ∈ items, ∀ schema, Holds schema → Holds ((change item).leaves schema))
    {schema : Schema}
    (start : Holds schema) :
    Holds (Merge.leaves (items.forM change) schema) := by
  induction items generalizing schema with
  | nil => exact start
  | cons item others inductionHypothesis =>
      have first := kept item List.mem_cons_self schema start
      have rest {after : Schema} (holds : Holds after) :=
        inductionHypothesis (fun other member => kept other (List.mem_cons_of_mem item member)) holds
      change Holds (Merge.leaves (EStateM.bind (change item) fun _ => others.forM change) schema)
      unfold Merge.leaves EStateM.bind at *
      cases outcome : change item schema with
      | ok _ after =>
          rw [outcome] at first
          exact rest first
      | error cause after =>
          rw [outcome] at first
          exact first

theorem message_of_definitionByName?
    {schema : Schema}
    {name : String}
    {message : MessageType}
    (found : (schema.definitionByName? name).bind Definition.message? = some message) :
    ∃ index, schema.indexOf? name = some index ∧
      schema.definition? index = some ⟨name, .message message⟩ := by
  obtain ⟨definition, named, isMessage⟩ := Option.bind_eq_some_iff.mp found
  obtain ⟨index, place, content⟩ := Option.bind_eq_some_iff.mp named
  obtain ⟨kind, same⟩ := Schema.definition?_of_indexOf? place
  obtain rfl := Option.some.inj (content.symm.trans same)
  cases kind with
  | message type =>
      obtain rfl := Option.some.inj isMessage
      exact ⟨index, place, content⟩
  | enum type => cases isMessage
  | framed type => cases isMessage

/-- Field numbers in extension ranges are legal. -/
theorem legal_of_inExtensionRange
    {schema : Schema}
    {message : MessageType}
    (wellFormed : message.WellFormed schema)
    {tag : Nat}
    (inRange : message.inExtensionRange tag = true) :
    ProtoWire.Tag.min ≤ tag ∧ tag ≤ ProtoWire.Tag.max := by
  obtain ⟨range, member, bounds⟩ := List.any_eq_true.mp inRange
  rw [Bool.and_eq_true, decide_eq_true_eq, decide_eq_true_eq] at bounds
  have legal := wellFormed.ranges range member
  exact ⟨Nat.le_trans legal.1 bounds.1, Nat.le_trans bounds.2 legal.2⟩

/-- Merging a field changes nothing, or it adds a new field in an extension range. -/
theorem leaves_mergeField
    (schema : Schema)
    (edition : Edition)
    (scope target name : String)
    (field : FieldDecl) :
    (mergeField edition scope target name field).leaves schema = schema ∨
      ∃ lowered message,
        field.lower schema edition scope target = .ok lowered ∧
          (schema.definitionByName? target).bind Definition.message? = some message ∧
            message.fieldByTag? lowered.tag = none ∧
              message.fieldByName? lowered.name = none ∧
                message.inExtensionRange lowered.tag = true ∧
                  (mergeField edition scope target name field).leaves schema =
                    schema.pushField target lowered := by
  unfold Merge.leaves mergeField
  cases lowers : field.lower schema edition scope target with
  | error cause => exact .inl rfl
  | ok lowered =>
      cases targeted : (schema.definitionByName? target).bind Definition.message? with
      | none => exact .inl rfl
      | some message =>
          cases known : message.fieldByTag? lowered.tag with
          | some present =>
              left
              by_cases same : present = lowered <;> simp [known, same]
          | none =>
              cases named : message.fieldByName? lowered.name with
              | some present =>
                  left
                  simp [known, named]
              | none =>
                  cases inRange : message.inExtensionRange lowered.tag with
                  | false =>
                      left
                      simp [known, named, inRange]
                  | true =>
                      right
                      refine ⟨lowered, message, rfl, rfl, known, named, inRange, ?_⟩
                      simp [known, named, inRange]

theorem wellFormed_mergeField
    {schema : Schema}
    (wellFormed : schema.WellFormed)
    (edition : Edition)
    (scope target name : String)
    (field : FieldDecl) :
    ((mergeField edition scope target name field).leaves schema).WellFormed := by
  rcases leaves_mergeField schema edition scope target name field with
    same | ⟨lowered, message, lowers, targeted, known, named, inRange, pushed⟩
  · rw [same]
    exact wellFormed
  · obtain ⟨index, -, found⟩ := message_of_definitionByName? targeted
    have legal := wellFormed.messages target message (Schema.mem_of_definition? found)
    obtain ⟨-, -, type, packed⟩ := FieldDecl.lower_eq_ok lowers
    have bounds := legal_of_inExtensionRange legal inRange
    rw [pushed]
    exact wellFormed.pushField found ⟨bounds.1, bounds.2, type, packed⟩
      (MessageType.fieldByTag?_eq_none.mp known) (MessageType.fieldByName?_eq_none.mp named)

private theorem get_bind_apply (next : Schema → Merge) (schema : Schema) :
    (get >>= next : Merge) schema = next schema schema := rfl

theorem mergeBlock_of_none
    {schema : Schema}
    {scope : String}
    {block : ExtendDecl}
    (untargeted : extensionTarget? schema scope block.name = none)
    (edition : Edition) :
    mergeBlock edition scope block schema = .error (.unknownExtensionTarget block.name) schema := by
  rw [mergeBlock, get_bind_apply, untargeted]
  rfl

theorem mergeBlock_of_some
    {schema : Schema}
    {scope target : String}
    {block : ExtendDecl}
    (targeted : extensionTarget? schema scope block.name = some target)
    (edition : Edition) :
    mergeBlock edition scope block schema =
      (block.fields.forM (mergeField edition scope target block.name) : Merge) schema := by
  rw [mergeBlock, get_bind_apply, targeted]

theorem wellFormed_mergeBlock
    {schema : Schema}
    (wellFormed : schema.WellFormed)
    (edition : Edition)
    (scope : String)
    (block : ExtendDecl) :
    ((mergeBlock edition scope block).leaves schema).WellFormed := by
  cases targeted : extensionTarget? schema scope block.name with
  | none =>
      rw [Merge.leaves, mergeBlock_of_none targeted]
      exact wellFormed
  | some target =>
      rw [Merge.leaves, mergeBlock_of_some targeted]
      exact Merge.leaves_forM Schema.WellFormed
        (fun field _ schema wellFormed =>
          wellFormed_mergeField wellFormed edition scope target block.name field)
        wellFormed

/-- Merging the extensions of any file keeps the rules, also if it fails half-way. -/
theorem wellFormed_mergeFile
    {schema : Schema}
    (wellFormed : schema.WellFormed)
    (file : FileDecl) :
    ((mergeFile file).leaves schema).WellFormed :=
  Merge.leaves_forM Schema.WellFormed
    (fun block _ _ wellFormed => wellFormed_mergeBlock wellFormed file.edition block.1 block.2)
    wellFormed

/-! ### Compiled schemas -/

/-- The passes of a compilation that succeeds. -/
theorem compileFiles_eq_ok {files : List FileDecl} {schema : Schema}
    (compiled : compileFiles files = .ok schema) :
    (∀ file ∈ files, file.check = .ok ()) ∧
      ∃ declared added,
        (files.flatMap FileDecl.definitions).foldlM declare .empty = .ok declared ∧
          files.mapM (FileDecl.additions declared) = .ok added ∧
            (files.forM mergeFile : Merge) (added.flatten.foldl Schema.add declared) =
              .ok () schema := by
  unfold compileFiles at compiled
  obtain ⟨_, checked, compiled⟩ := bind_eq_ok.mp compiled
  obtain ⟨declared, declares, compiled⟩ := bind_eq_ok.mp compiled
  obtain ⟨defined, defines, merged⟩ := bind_eq_ok.mp compiled
  rw [foldlM_defineFile] at defines
  obtain ⟨added, adds, rfl⟩ := map_eq_ok.mp defines
  refine ⟨forM_eq_ok.mp checked, declared, added, declares, adds, ?_⟩
  split at merged
  · rename_i merges
    obtain rfl := Except.ok.inj merged
    exact merges
  · cases merged

theorem wellFormed_of_compileFiles {files : List FileDecl} {schema : Schema}
    (compiled : compileFiles files = .ok schema) :
    schema.WellFormed := by
  obtain ⟨checked, declared, added, declares, adds, merges⟩ := compileFiles_eq_ok compiled
  have legal := wellFormed_foldl_add checked declares adds
  have kept : (Merge.leaves (files.forM mergeFile) _).WellFormed :=
    Merge.leaves_forM Schema.WellFormed
      (fun file _ _ wellFormed => wellFormed_mergeFile wellFormed file) legal
  rw [Merge.leaves, merges] at kept
  exact kept

theorem wellFormed_of_compileSources
    {options : CompileOptions}
    {sources : List String}
    {schema : Schema}
    (compiled : compileSources options sources = .ok schema) :
    schema.WellFormed := by
  unfold compileSources at compiled
  obtain ⟨files, -, compiled⟩ := bind_eq_ok.mp compiled
  simp only at compiled
  split at compiled
  · cases compiled
  · exact wellFormed_of_compileFiles compiled

/-- The schemas that sources are compiled to, and those with frames registered afterwards. -/
inductive Built : Schema → Prop where
  | compiled {options : CompileOptions} {sources : List String} {schema : Schema}
      (compiled : compileSources options sources = .ok schema) :
      Built schema
  | framed {schema extended : Schema} {name inner : String}
      {lengthType : Option String} {length : Option Nat}
      (built : Built schema)
      (registered : schema.registerFramed name inner lengthType length = .ok extended) :
      Built extended

/-- Every schema that can be built obeys the rules. -/
theorem Built.wellFormed {schema : Schema} (built : Built schema) : schema.WellFormed := by
  induction built with
  | compiled compiled => exact wellFormed_of_compileSources compiled
  | framed built registered inductionHypothesis => exact inductionHypothesis.registerFramed registered

end ProtoWire.Proto
