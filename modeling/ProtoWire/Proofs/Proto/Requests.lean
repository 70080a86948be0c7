import Mathlib.Data.List.Nodup
import ProtoWire.Proofs.Proto.Extensions

/-!
Contract: merging extend blocks asks a schema for some fields, one after the other, and each of
them is there already or is added. The fields that are asked for are found from the outline of the
schema alone, and all of them are granted if no two of them, and none of them and a field that is
there, are in conflict. So neither the answer nor the set of new fields depends on the order in
which they are asked for.

Owns:
- the fields that extend blocks ask for;
- granting one field, and a run of fields;
- the conflicts between fields, and what a run without conflicts adds.

Does not own: the fields that messages declare themselves.
-/

namespace ProtoWire.Proto

open Outcome

/-! ### Requests -/

/-- The field that a declaration asks for, with the message that it asks for it. -/
def FieldDecl.request
    (schema : Schema)
    (edition : Edition)
    (scope target : String)
    (field : FieldDecl) :
    Except SourceError (List (String × Field)) :=
  (fun lowered => [(target, lowered)]) <$> field.lower schema edition scope target

/-- The fields that an extend block in a scope asks for. -/
def blockRequests
    (edition : Edition)
    (schema : Schema)
    (block : String × ExtendDecl) :
    Except SourceError (List (String × Field)) :=
  match extensionTarget? schema block.1 block.2.name with
  | none => .error (.unknownExtensionTarget block.2.name)
  | some target =>
      List.flatten <$> block.2.fields.mapM (FieldDecl.request schema edition block.1 target)

/-- The fields that the extend blocks of a file ask for. -/
def FileDecl.requests (schema : Schema) (file : FileDecl) :
    Except SourceError (List (String × Field)) :=
  List.flatten <$> file.extensionBlocks.mapM (blockRequests file.edition schema)

section Outlines

variable {schema after : Schema}

theorem FieldDecl.lower_of_outline
    (same : after.outline = schema.outline)
    (edition : Edition)
    (scope message : String)
    (field : FieldDecl) :
    field.lower after edition scope message = field.lower schema edition scope message := by
  rw [← FieldDecl.lower_outline, same, FieldDecl.lower_outline]

theorem FieldDecl.request_of_outline
    (same : after.outline = schema.outline)
    (edition : Edition)
    (scope target : String)
    (field : FieldDecl) :
    field.request after edition scope target = field.request schema edition scope target := by
  rw [FieldDecl.request, FieldDecl.lower_of_outline same, FieldDecl.request]

theorem blockRequests_of_outline
    (same : after.outline = schema.outline)
    (edition : Edition)
    (block : String × ExtendDecl) :
    blockRequests edition after block = blockRequests edition schema block := by
  unfold blockRequests
  rw [extensionTarget?_of_outline same]
  simp only [funext (FieldDecl.request_of_outline same edition block.1 _)]

theorem FileDecl.requests_of_outline
    (same : after.outline = schema.outline)
    (file : FileDecl) :
    file.requests after = file.requests schema := by
  rw [FileDecl.requests, funext (blockRequests_of_outline same file.edition), FileDecl.requests]

end Outlines

/-! ### Granting -/

/-- A field that is asked for is there already, or it is added under a new number and a new name. -/
def Grants (schema : Schema) (request : String × Field) (after : Schema) : Prop :=
  ∃ message, (schema.definitionByName? request.1).bind Definition.message? = some message ∧
    (message.fieldByTag? request.2.tag = some request.2 ∧ after = schema ∨
      message.fieldByTag? request.2.tag = none ∧ message.fieldByName? request.2.name = none ∧
        message.inExtensionRange request.2.tag = true ∧ after = schema.add request)

/-- A run of fields that are granted one after the other. -/
inductive GrantsAll : Schema → List (String × Field) → Schema → Prop where
  | nil {schema : Schema} : GrantsAll schema [] schema
  | cons {schema middle after : Schema} {request : String × Field}
      {others : List (String × Field)}
      (first : Grants schema request middle)
      (rest : GrantsAll middle others after) :
      GrantsAll schema (request :: others) after

section Granting

variable {schema middle after : Schema}

theorem Grants.outline {request : String × Field} (grants : Grants schema request after) :
    after.outline = schema.outline := by
  obtain ⟨message, -, ⟨-, rfl⟩ | ⟨-, -, -, rfl⟩⟩ := grants
  · rfl
  · exact Schema.outline_add schema request

theorem GrantsAll.outline {requests : List (String × Field)}
    (grants : GrantsAll schema requests after) :
    after.outline = schema.outline := by
  induction grants with
  | nil => rfl
  | cons first rest inductionHypothesis => rw [inductionHypothesis, first.outline]

theorem grantsAll_append {front back : List (String × Field)} :
    GrantsAll schema (front ++ back) after ↔
      ∃ middle, GrantsAll schema front middle ∧ GrantsAll middle back after := by
  induction front generalizing schema with
  | nil =>
      constructor
      · exact fun grants => ⟨schema, .nil, grants⟩
      · rintro ⟨middle, nothing, grants⟩
        cases nothing
        exact grants
  | cons request others inductionHypothesis =>
      constructor
      · intro grants
        cases grants with
        | cons first rest =>
            obtain ⟨middle, frontGrants, backGrants⟩ := inductionHypothesis.mp rest
            exact ⟨middle, .cons first frontGrants, backGrants⟩
      · rintro ⟨middle, frontGrants, backGrants⟩
        cases frontGrants with
        | cons first rest => exact .cons first (inductionHypothesis.mpr ⟨middle, rest, backGrants⟩)

theorem grantsAll_singleton {request : String × Field} :
    GrantsAll schema [request] after ↔ Grants schema request after := by
  constructor
  · intro grants
    cases grants with
    | cons first rest =>
        cases rest
        exact first
  · exact fun grants => .cons grants .nil

/-- If every change of a run grants the fields that an item asks for, the run grants those that all
items ask for. -/
theorem Merge.forM_eq_ok
    {α : Type}
    {change : α → Merge}
    {requests : Schema → α → Except SourceError (List (String × Field))}
    (stable : ∀ {schema after : Schema}, after.outline = schema.outline →
      ∀ item, requests after item = requests schema item)
    (each : ∀ item schema after, change item schema = .ok () after ↔
      ∃ wanted, requests schema item = .ok wanted ∧ GrantsAll schema wanted after)
    {items : List α} :
    (items.forM change : Merge) schema = .ok () after ↔
      ∃ wanted, items.mapM (requests schema) = .ok wanted ∧
        GrantsAll schema wanted.flatten after := by
  induction items generalizing schema with
  | nil =>
      constructor
      · rintro ⟨⟩
        exact ⟨[], rfl, .nil⟩
      · rintro ⟨_, ⟨⟩, grants⟩
        cases grants
        rfl
  | cons item others inductionHypothesis =>
      rw [Merge.forM_cons_eq_ok]
      constructor
      · rintro ⟨middle, first, rest⟩
        obtain ⟨wanted, wantedOk, grants⟩ := (each item schema middle).mp first
        obtain ⟨more, moreOk, moreGrants⟩ := inductionHypothesis.mp rest
        rw [funext (stable grants.outline)] at moreOk
        exact ⟨wanted :: more, mapM_cons_eq_ok.mpr ⟨_, _, wantedOk, moreOk, rfl⟩,
          grantsAll_append.mpr ⟨middle, grants, moreGrants⟩⟩
      · rintro ⟨_, run, grants⟩
        obtain ⟨wanted, more, wantedOk, moreOk, rfl⟩ := mapM_cons_eq_ok.mp run
        obtain ⟨middle, wantedGrants, moreGrants⟩ := grantsAll_append.mp grants
        refine ⟨middle, (each item schema middle).mpr ⟨wanted, wantedOk, wantedGrants⟩, ?_⟩
        rw [← funext (stable wantedGrants.outline)] at moreOk
        exact inductionHypothesis.mpr ⟨more, moreOk, moreGrants⟩

private theorem exists_flatten
    {outcome : Except SourceError (List (List (String × Field)))} :
    (∃ wanted, outcome = .ok wanted ∧ GrantsAll schema wanted.flatten after) ↔
      ∃ wanted, List.flatten <$> outcome = .ok wanted ∧ GrantsAll schema wanted after := by
  constructor
  · rintro ⟨wanted, rfl, grants⟩
    exact ⟨wanted.flatten, rfl, grants⟩
  · rintro ⟨_, flattened, grants⟩
    obtain ⟨wanted, outcomeOk, rfl⟩ := map_eq_ok.mp flattened
    exact ⟨wanted, outcomeOk, grants⟩

theorem mergeField_eq_ok
    {edition : Edition}
    {scope target name : String}
    {field : FieldDecl} :
    mergeField edition scope target name field schema = .ok () after ↔
      ∃ wanted, field.request schema edition scope target = .ok wanted ∧
        GrantsAll schema wanted after := by
  unfold mergeField FieldDecl.request
  cases lowers : field.lower schema edition scope target with
  | error cause =>
      constructor
      · rintro ⟨⟩
      · rintro ⟨_, ⟨⟩, -⟩
  | ok lowered =>
      have single : (∃ wanted, (Except.ok [(target, lowered)] : Except SourceError _) = .ok wanted ∧
          GrantsAll schema wanted after) ↔ Grants schema (target, lowered) after := by
        simp only [Except.ok.injEq, exists_eq_left', grantsAll_singleton]
      rw [map_ok, single]
      unfold Grants
      simp only
      cases targeted : (schema.definitionByName? target).bind Definition.message? with
      | none => simp
      | some message =>
          cases known : message.fieldByTag? lowered.tag with
          | some present =>
            by_cases same : present = lowered <;> simp [known, same, @eq_comm _ after]
          | none =>
              cases named : message.fieldByName? lowered.name with
              | some present => simp [known, named]
              | none =>
                  cases inRange : message.inExtensionRange lowered.tag <;>
                    simp [known, named, inRange, @eq_comm _ after, Schema.add]

theorem mergeBlock_eq_ok {edition : Edition} {block : String × ExtendDecl} :
    mergeBlock edition block.1 block.2 schema = .ok () after ↔
      ∃ wanted, blockRequests edition schema block = .ok wanted ∧
        GrantsAll schema wanted after := by
  unfold blockRequests
  cases targeted : extensionTarget? schema block.1 block.2.name with
  | none =>
      rw [mergeBlock_of_none targeted]
      constructor
      · rintro ⟨⟩
      · rintro ⟨_, ⟨⟩, -⟩
  | some target =>
      rw [mergeBlock_of_some targeted, Merge.forM_eq_ok
        (fun same field => FieldDecl.request_of_outline same edition block.1 target field)
        fun _ _ _ => mergeField_eq_ok]
      exact exists_flatten

theorem mergeFile_eq_ok {file : FileDecl} :
    mergeFile file schema = .ok () after ↔
      ∃ wanted, file.requests schema = .ok wanted ∧ GrantsAll schema wanted after := by
  rw [mergeFile, Merge.forM_eq_ok
    (fun same block => blockRequests_of_outline same file.edition block)
    fun _ _ _ => mergeBlock_eq_ok]
  exact exists_flatten

/-- A merge of files succeeds if all fields that the files ask for are known and granted. -/
theorem mergeFiles_eq_ok {files : List FileDecl} :
    (files.forM mergeFile : Merge) schema = .ok () after ↔
      ∃ wanted, files.mapM (FileDecl.requests schema) = .ok wanted ∧
        GrantsAll schema wanted.flatten after :=
  Merge.forM_eq_ok (fun same file => FileDecl.requests_of_outline same file)
    fun _ _ _ => mergeFile_eq_ok

end Granting

end ProtoWire.Proto

namespace ProtoWire

/-! ### Conflicts -/

/-- Two fields have different numbers and different names, or they are the same. -/
def Field.Agrees (first second : Field) : Prop :=
  first.tag = second.tag ∨ first.name = second.name → first = second

/-- A field is one of the fields of a message, or there is room for it. -/
def MessageType.Accepts (message : MessageType) (field : Field) : Prop :=
  field ∈ message.fields ∨
    field.tag ∉ message.fields.map Field.tag ∧ field.name ∉ message.fields.map Field.name ∧
      message.inExtensionRange field.tag = true

namespace MessageType

variable
  {message : MessageType}
  {first second : Field}

/-- What a message accepts agrees with the fields that it has. -/
theorem Accepts.agrees
    (accepts : message.Accepts second)
    (tags : (message.fields.map Field.tag).Nodup)
    (names : (message.fields.map Field.name).Nodup)
    (member : first ∈ message.fields) :
    first.Agrees second := by
  intro clash
  rcases accepts with present | ⟨freshTag, freshName, -⟩
  · rcases clash with sameTag | sameName
    · exact List.inj_on_of_nodup_map tags member present sameTag
    · exact List.inj_on_of_nodup_map names member present sameName
  · rcases clash with sameTag | sameName
    · exact absurd (sameTag ▸ List.mem_map_of_mem member) freshTag
    · exact absurd (sameName ▸ List.mem_map_of_mem member) freshName

/-- With one more field, a message accepts what agrees with this field. -/
theorem accepts_push
    (freshTag : first.tag ∉ message.fields.map Field.tag)
    (freshName : first.name ∉ message.fields.map Field.name)
    (inRange : message.inExtensionRange first.tag = true) :
    (message.push first).Accepts second ↔ message.Accepts second ∧ first.Agrees second := by
  have fields : (message.push first).fields = message.fields ++ [first] := rfl
  have ranges (tag : Nat) :
      (message.push first).inExtensionRange tag = message.inExtensionRange tag := rfl
  unfold Accepts
  rw [fields, ranges, List.map_append, List.map_append, List.mem_append, List.mem_append,
    List.mem_append]
  simp only [List.map_cons, List.map_nil, List.mem_singleton, not_or]
  constructor
  · rintro ((present | rfl) | ⟨⟨newTag, otherTag⟩, ⟨newName, otherName⟩, secondRange⟩)
    · refine ⟨.inl present, fun clash => ?_⟩
      rcases clash with sameTag | sameName
      · exact absurd (sameTag ▸ List.mem_map_of_mem present) freshTag
      · exact absurd (sameName ▸ List.mem_map_of_mem present) freshName
    · exact ⟨.inr ⟨freshTag, freshName, inRange⟩, fun _ => rfl⟩
    · refine ⟨.inr ⟨newTag, newName, secondRange⟩, fun clash => ?_⟩
      exact (clash.elim (fun same => otherTag same.symm) fun same => otherName same.symm).elim
  · rintro ⟨present | ⟨newTag, newName, secondRange⟩, agrees⟩
    · exact .inl (.inl present)
    · by_cases clash : first.tag = second.tag ∨ first.name = second.name
      · exact .inl (.inr (agrees clash).symm)
      · rw [not_or] at clash
        exact .inr ⟨⟨newTag, Ne.symm clash.1⟩, ⟨newName, Ne.symm clash.2⟩, secondRange⟩

end MessageType

end ProtoWire

namespace ProtoWire.Proto

open Outcome

/-- The message of a field that is asked for accepts the field. -/
def Fits (schema : Schema) (request : String × Field) : Prop :=
  ∃ message, ⟨request.1, .message message⟩ ∈ schema.definitions ∧ message.Accepts request.2

/-- Fields that can be asked for in any order without a conflict. -/
structure Compatible (schema : Schema) (requests : List (String × Field)) : Prop where
  fits : ∀ request ∈ requests, Fits schema request
  agree : ∀ first ∈ requests, ∀ second ∈ requests, first.1 = second.1 → first.2.Agrees second.2

/-- A field that some declaration is lowered to. -/
def IsLowered (schema : Schema) (field : Field) : Prop :=
  ∃ edition scope message declaration,
    FieldDecl.lower schema edition scope message declaration = .ok field

section Conflicts

variable {schema middle after : Schema}

theorem IsLowered.of_outline {field : Field}
    (lowered : IsLowered schema field)
    (same : after.outline = schema.outline) :
    IsLowered after field := by
  obtain ⟨edition, scope, message, declaration, ok⟩ := lowered
  exact ⟨edition, scope, message, declaration, (FieldDecl.lower_of_outline same ..).trans ok⟩

theorem message_of_name
    (wellFormed : schema.WellFormed)
    {name : String}
    {message : MessageType} :
    (schema.definitionByName? name).bind Definition.message? = some message ↔
      ⟨name, .message message⟩ ∈ schema.definitions := by
  constructor
  · intro named
    obtain ⟨index, -, found⟩ := message_of_definitionByName? named
    exact Schema.mem_of_definition? found
  · intro member
    obtain ⟨index, found⟩ := List.getElem?_of_mem member
    have place := Schema.indexOf?_of_definition? wellFormed.names found
    rw [Schema.definitionByName?, place]
    change (schema.definitions[index]?).bind Definition.message? = _
    rw [found]
    rfl

/-- Under the rules, what a field finds decides how it is granted. -/
theorem grants_iff (wellFormed : schema.WellFormed) {request : String × Field} :
    Grants schema request after ↔
      ∃ message, ⟨request.1, .message message⟩ ∈ schema.definitions ∧
        (request.2 ∈ message.fields ∧ after = schema ∨
          request.2.tag ∉ message.fields.map Field.tag ∧
            request.2.name ∉ message.fields.map Field.name ∧
              message.inExtensionRange request.2.tag = true ∧ after = schema.add request) := by
  unfold Grants
  refine exists_congr fun message => ?_
  rw [message_of_name wellFormed]
  refine and_congr_right fun member => ?_
  have tags := (wellFormed.messages _ _ member).tags
  have present : message.fieldByTag? request.2.tag = some request.2 ↔
      request.2 ∈ message.fields := by
    rw [MessageType.fieldByTag?, Keys.getLast?_filter_eq_some tags]
    exact and_iff_left rfl
  rw [present, MessageType.fieldByTag?_eq_none, MessageType.fieldByName?_eq_none]

/-- The messages of a schema with one more field. -/
theorem message_mem_add
    (wellFormed : schema.WellFormed)
    {request : String × Field}
    {name : String}
    {message : MessageType} :
    ⟨name, .message message⟩ ∈ (schema.add request).definitions ↔
      ∃ before, ⟨name, .message before⟩ ∈ schema.definitions ∧
        message = if request.1 = name then before.push request.2 else before := by
  have shape : (schema.add request).definitions =
      schema.definitions.map (Definition.extend [request]) := by
    rw [Schema.add, Schema.pushField_eq wellFormed.names]
  have extended (before : MessageType) :
      (Definition.mk name (.message before)).extend [request] =
        ⟨name, .message (if request.1 = name then before.push request.2 else before)⟩ := by
    obtain ⟨target, field⟩ := request
    by_cases same : target = name
    · subst same
      rw [if_pos rfl, Definition.extend_message]
    · rw [if_neg same, Definition.extend_of_not_mem same]
  rw [shape, List.mem_map]
  constructor
  · rintro ⟨definition, member, same⟩
    obtain ⟨before, rfl, -⟩ := Definition.extend_eq_message same
    rw [extended] at same
    exact ⟨before, member, (DefinitionKind.message.inj (congrArg Definition.kind same)).symm⟩
  · rintro ⟨before, member, rfl⟩
    exact ⟨_, member, extended before⟩

theorem wellFormed_of_grants
    (wellFormed : schema.WellFormed)
    {request : String × Field}
    (lowered : IsLowered schema request.2)
    (grants : Grants schema request after) :
    after.WellFormed := by
  obtain ⟨message, member, ⟨-, rfl⟩ | ⟨freshTag, freshName, inRange, rfl⟩⟩ :=
    (grants_iff wellFormed).mp grants
  · exact wellFormed
  · obtain ⟨edition, scope, name, declaration, ok⟩ := lowered
    obtain ⟨-, -, type, packed⟩ := FieldDecl.lower_eq_ok ok
    obtain ⟨index, found⟩ := List.getElem?_of_mem member
    have bounds := legal_of_inExtensionRange (wellFormed.messages _ _ member) inRange
    exact wellFormed.pushField found ⟨bounds.1, bounds.2, type, packed⟩ freshTag freshName

/-- What is granted leaves room for exactly the fields that agree with it. -/
theorem fits_iff_of_grants
    (wellFormed : schema.WellFormed)
    {request other : String × Field}
    (grants : Grants schema request after) :
    Fits after other ↔ Fits schema other ∧ (request.1 = other.1 → request.2.Agrees other.2) := by
  obtain ⟨message, member, ⟨present, rfl⟩ | ⟨freshTag, freshName, inRange, rfl⟩⟩ :=
    (grants_iff wellFormed).mp grants
  · have rules := wellFormed.messages _ _ member
    constructor
    · rintro ⟨again, inside, accepts⟩
      refine ⟨⟨again, inside, accepts⟩, fun target => ?_⟩
      rw [← target] at inside
      obtain rfl := Schema.message_eq_of_name wellFormed.names member inside
      exact accepts.agrees rules.tags rules.names present
    · exact And.left
  · unfold Fits
    simp only [message_mem_add wellFormed]
    constructor
    · rintro ⟨_, ⟨before, inside, rfl⟩, accepts⟩
      by_cases target : request.1 = other.1
      · rw [if_pos target] at accepts
        rw [← target] at inside
        obtain rfl := Schema.message_eq_of_name wellFormed.names member inside
        obtain ⟨accepts, agrees⟩ := (MessageType.accepts_push freshTag freshName inRange).mp accepts
        exact ⟨⟨message, target ▸ inside, accepts⟩, fun _ => agrees⟩
      · rw [if_neg target] at accepts
        exact ⟨⟨before, inside, accepts⟩, fun same => absurd same target⟩
    · rintro ⟨⟨before, inside, accepts⟩, agrees⟩
      refine ⟨_, ⟨before, inside, rfl⟩, ?_⟩
      by_cases target : request.1 = other.1
      · rw [if_pos target]
        have again := inside
        rw [← target] at again
        obtain rfl := Schema.message_eq_of_name wellFormed.names member again
        exact (MessageType.accepts_push freshTag freshName inRange).mpr ⟨accepts, agrees target⟩
      · rw [if_neg target]
        exact accepts

theorem exists_grants_iff
    (wellFormed : schema.WellFormed)
    {request : String × Field} :
    (∃ after, Grants schema request after) ↔ Fits schema request := by
  constructor
  · rintro ⟨after, grants⟩
    obtain ⟨message, member, granted⟩ := (grants_iff wellFormed).mp grants
    refine ⟨message, member, ?_⟩
    obtain ⟨present, -⟩ | ⟨freshTag, freshName, inRange, -⟩ := granted
    · exact .inl present
    · exact .inr ⟨freshTag, freshName, inRange⟩
  · rintro ⟨message, member, present | ⟨freshTag, freshName, inRange⟩⟩
    · exact ⟨schema, (grants_iff wellFormed).mpr ⟨message, member, .inl ⟨present, rfl⟩⟩⟩
    · exact ⟨schema.add request, (grants_iff wellFormed).mpr
        ⟨message, member, .inr ⟨freshTag, freshName, inRange, rfl⟩⟩⟩

/-- The first field of a run is granted, and the others are compatible with what it leaves. -/
theorem compatible_cons
    (wellFormed : schema.WellFormed)
    {request : String × Field}
    {others : List (String × Field)}
    (grants : Grants schema request after) :
    Compatible schema (request :: others) ↔ Compatible after others := by
  constructor
  · intro compatible
    constructor
    · intro other member
      exact (fits_iff_of_grants wellFormed grants).mpr
        ⟨compatible.fits other (List.mem_cons_of_mem _ member),
          compatible.agree request List.mem_cons_self other (List.mem_cons_of_mem _ member)⟩
    · intro first firstMember second secondMember
      exact compatible.agree first (List.mem_cons_of_mem _ firstMember)
        second (List.mem_cons_of_mem _ secondMember)
  · intro compatible
    have later (other : String × Field) (member : other ∈ others) :=
      (fits_iff_of_grants wellFormed grants).mp (compatible.fits other member)
    constructor
    · intro other member
      rcases List.mem_cons.mp member with rfl | inside
      · exact (exists_grants_iff wellFormed).mp ⟨after, grants⟩
      · exact (later other inside).1
    · intro first firstMember second secondMember target
      rcases List.mem_cons.mp firstMember with rfl | firstLater
      · rcases List.mem_cons.mp secondMember with rfl | secondLater
        · exact fun _ => rfl
        · exact (later second secondLater).2 target
      · rcases List.mem_cons.mp secondMember with rfl | secondLater
        · intro clash
          exact ((later first firstLater).2 target.symm (clash.imp Eq.symm Eq.symm)).symm
        · exact compatible.agree first firstLater second secondLater target

theorem isLowered_of_requests
    {file : FileDecl}
    {wanted : List (String × Field)}
    (ok : file.requests schema = .ok wanted) :
    ∀ request ∈ wanted, IsLowered schema request.2 := by
  obtain ⟨blocks, run, rfl⟩ := map_eq_ok.mp ok
  refine forall_mem_flatten_mapM (fun request => IsLowered schema request.2) ?_ run
  intro block _ result blockOk
  unfold blockRequests at blockOk
  split at blockOk
  · cases blockOk
  · obtain ⟨fields, fieldRun, rfl⟩ := map_eq_ok.mp blockOk
    refine forall_mem_flatten_mapM (fun request => IsLowered schema request.2) ?_ fieldRun
    intro field _ result fieldOk
    obtain ⟨lowered, lowers, rfl⟩ := map_eq_ok.mp fieldOk
    intro request member
    obtain rfl := List.mem_singleton.mp member
    exact ⟨_, _, _, _, lowers⟩

/-- A run of fields is granted exactly if they are compatible. -/
theorem exists_grantsAll_iff
    (wellFormed : schema.WellFormed)
    {requests : List (String × Field)}
    (lowered : ∀ request ∈ requests, IsLowered schema request.2) :
    (∃ after, GrantsAll schema requests after) ↔ Compatible schema requests := by
  induction requests generalizing schema with
  | nil => exact ⟨fun _ => ⟨nofun, nofun⟩, fun _ => ⟨schema, .nil⟩⟩
  | cons request others inductionHypothesis =>
      have rest {middle : Schema} (grants : Grants schema request middle) :=
        inductionHypothesis
          (wellFormed_of_grants wellFormed (lowered request List.mem_cons_self) grants)
          fun other member =>
            (lowered other (List.mem_cons_of_mem _ member)).of_outline grants.outline
      constructor
      · rintro ⟨after, grants⟩
        cases grants with
        | cons first others =>
            exact (compatible_cons wellFormed first).mpr ((rest first).mp ⟨after, others⟩)
      · intro compatible
        obtain ⟨middle, first⟩ :=
          (exists_grants_iff wellFormed).mpr (compatible.fits request List.mem_cons_self)
        obtain ⟨after, others⟩ :=
          (rest first).mpr ((compatible_cons wellFormed first).mp compatible)
        exact ⟨after, .cons first others⟩

/-! ### Additions -/

/-- A message of a schema has a field. -/
def HasField (schema : Schema) (request : String × Field) : Prop :=
  ∃ message, ⟨request.1, .message message⟩ ∈ schema.definitions ∧ request.2 ∈ message.fields

/-- What is granted is there afterwards, and nothing else is new. -/
theorem hasField_iff_of_grants
    (wellFormed : schema.WellFormed)
    {request addition : String × Field}
    (grants : Grants schema request after) :
    HasField after addition ↔ HasField schema addition ∨ addition = request := by
  obtain ⟨message, member, ⟨present, rfl⟩ | ⟨-, -, -, rfl⟩⟩ := (grants_iff wellFormed).mp grants
  · refine ⟨.inl, ?_⟩
    rintro (there | rfl)
    · exact there
    · exact ⟨message, member, present⟩
  · unfold HasField
    simp only [message_mem_add wellFormed]
    constructor
    · rintro ⟨_, ⟨before, inside, rfl⟩, present⟩
      by_cases target : request.1 = addition.1
      · rw [if_pos target] at present
        rcases List.mem_append.mp present with there | new
        · exact .inl ⟨before, inside, there⟩
        · exact .inr (Prod.ext target.symm (List.mem_singleton.mp new))
      · rw [if_neg target] at present
        exact .inl ⟨before, inside, present⟩
    · rintro (⟨before, inside, there⟩ | rfl)
      · refine ⟨_, ⟨before, inside, rfl⟩, ?_⟩
        split
        · exact List.mem_append_left _ there
        · exact there
      · refine ⟨_, ⟨message, member, rfl⟩, ?_⟩
        rw [if_pos rfl]
        exact List.mem_append_right _ (List.mem_singleton.mpr rfl)

theorem hasField_or_new
    (wellFormed : schema.WellFormed)
    {request : String × Field}
    (grants : Grants schema request after) :
    HasField schema request ∧ after = schema ∨
      ¬ HasField schema request ∧ after = schema.add request := by
  obtain ⟨message, member, ⟨present, same⟩ | ⟨freshTag, -, -, added⟩⟩ :=
    (grants_iff wellFormed).mp grants
  · exact .inl ⟨⟨message, member, present⟩, same⟩
  · refine .inr ⟨?_, added⟩
    rintro ⟨again, inside, present⟩
    obtain rfl := Schema.message_eq_of_name wellFormed.names member inside
    exact freshTag (List.mem_map_of_mem present)

/-- A run adds the fields that were asked for and that were not there. -/
theorem GrantsAll.additions
    (wellFormed : schema.WellFormed)
    {requests : List (String × Field)}
    (lowered : ∀ request ∈ requests, IsLowered schema request.2)
    (grants : GrantsAll schema requests after) :
    ∃ extensions : List (String × Field),
      after = extensions.foldl Schema.add schema ∧
        ∀ addition, addition ∈ extensions ↔ addition ∈ requests ∧ ¬ HasField schema addition := by
  induction grants with
  | nil => exact ⟨[], rfl, fun addition => by simp⟩
  | @cons schema middle after request others first rest inductionHypothesis =>
      obtain ⟨extensions, rfl, added⟩ := inductionHypothesis
        (wellFormed_of_grants wellFormed (lowered request List.mem_cons_self) first)
        fun other member => (lowered other (List.mem_cons_of_mem _ member)).of_outline first.outline
      simp only [hasField_iff_of_grants wellFormed first, not_or] at added
      obtain ⟨there, rfl⟩ | ⟨new, rfl⟩ := hasField_or_new wellFormed first
      · refine ⟨extensions, rfl, fun addition => ?_⟩
        rw [added, List.mem_cons]
        constructor
        · rintro ⟨wanted, absent, -⟩
          exact ⟨.inr wanted, absent⟩
        · rintro ⟨rfl | wanted, absent⟩
          · exact absurd there absent
          · exact ⟨wanted, absent, fun same => absent (same ▸ there)⟩
      · refine ⟨request :: extensions, rfl, fun addition => ?_⟩
        rw [List.mem_cons, added, List.mem_cons]
        constructor
        · rintro (rfl | ⟨wanted, absent, -⟩)
          · exact ⟨.inl rfl, new⟩
          · exact ⟨.inr wanted, absent⟩
        · rintro ⟨rfl | wanted, absent⟩
          · exact .inl rfl
          · by_cases same : addition = request
            · exact .inl same
            · exact .inr ⟨wanted, absent, same⟩

end Conflicts

end ProtoWire.Proto
