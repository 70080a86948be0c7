import ProtoWire.Proofs.Proto.Requests

/-!
Contract: extend blocks can be merged again. What the first merge has added is recognised as known,
also after later merges, and a block that was refused is refused again for the same cause.

Owns:
- fields that are found under their numbers, and what keeps them found;
- changes that can be made again, and runs of such changes;
- merging a field, a block and a file for a second time.

Does not own: what the first merge adds.
-/

namespace ProtoWire.MessageType

variable (message : MessageType) {field : Field} {tag : Nat}

theorem fieldByTag?_push_self : (message.push field).fieldByTag? field.tag = some field := by
  simp [fieldByTag?, push]

theorem fieldByTag?_push_ne (different : field.tag ≠ tag) :
    (message.push field).fieldByTag? tag = message.fieldByTag? tag := by
  simp [fieldByTag?, push, different]

end ProtoWire.MessageType

namespace ProtoWire.Proto

/-! ### Known fields -/

/-- The message that a field is meant for finds the field under its number. Neither names nor
numbers need to be unique. -/
def Finds (schema : Schema) (request : String × Field) : Prop :=
  ∃ message, (schema.definitionByName? request.1).bind Definition.message? = some message ∧
    message.fieldByTag? request.2.tag = some request.2

section Finding

variable
  {schema middle after : Schema}
  {request other : String × Field}

/-- Of the messages that are looked up by their names, the one that gets a field changes. -/
private theorem messageByName?_add
    {name : String}
    {message before : MessageType}
    (targeted : (schema.definitionByName? request.1).bind Definition.message? = some message)
    (named : (schema.definitionByName? name).bind Definition.message? = some before) :
    ((schema.add request).definitionByName? name).bind Definition.message? =
      some (if request.1 = name then before.push request.2 else before) := by
  obtain ⟨target, field⟩ := request
  obtain ⟨place, placed, found⟩ := message_of_definitionByName? targeted
  obtain ⟨index, indexed, beforeFound⟩ := message_of_definitionByName? named
  have again : (schema.add (target, field)).indexOf? name = some index := by
    rw [Schema.indexOf?_of_outline (Schema.outline_add _ _), indexed]
  rw [Schema.definitionByName?, again, Option.bind_some, Schema.add,
    Schema.pushField_of_indexOf? placed found, Schema.definition?]
  by_cases same : target = name
  · subst same
    obtain rfl := Option.some.inj (placed.symm.trans indexed)
    obtain rfl := Option.some.inj (targeted.symm.trans named)
    obtain ⟨bound, -⟩ := List.getElem?_eq_some_iff.mp found
    rw [List.getElem?_set_self bound, if_pos rfl]
    rfl
  · have apart : place ≠ index := by
      rintro rfl
      cases found.symm.trans beforeFound
      exact same rfl
    rw [List.getElem?_set_ne apart, if_neg same]
    change (schema.definition? index).bind Definition.message? = some before
    rw [beforeFound]
    rfl

/-- What is granted is found. -/
theorem finds_of_grants (grants : Grants schema request after) : Finds after request := by
  obtain ⟨message, targeted, ⟨known, rfl⟩ | ⟨-, -, -, rfl⟩⟩ := grants
  · exact ⟨message, targeted, known⟩
  · have pushed := messageByName?_add targeted targeted
    rw [if_pos rfl] at pushed
    exact ⟨_, pushed, message.fieldByTag?_push_self⟩

/-- What is found stays found: no field is granted under a number that is in use. -/
theorem Finds.of_grants (finds : Finds schema request) (grants : Grants schema other after) :
    Finds after request := by
  obtain ⟨before, named, known⟩ := finds
  obtain ⟨message, targeted, ⟨-, rfl⟩ | ⟨free, -, -, rfl⟩⟩ := grants
  · exact ⟨before, named, known⟩
  · have looked := messageByName?_add targeted named
    by_cases same : other.1 = request.1
    · rw [same, named] at targeted
      obtain rfl := Option.some.inj targeted
      rw [if_pos same] at looked
      have different : other.2.tag ≠ request.2.tag := by
        intro clash
        rw [clash, known] at free
        cases free
      exact ⟨_, looked, (before.fieldByTag?_push_ne different).trans known⟩
    · rw [if_neg same] at looked
      exact ⟨before, looked, known⟩

/-- A field that is found is granted again, and this changes nothing. -/
theorem grants_of_finds (finds : Finds schema request) : Grants schema request schema := by
  obtain ⟨message, named, known⟩ := finds
  exact ⟨message, named, .inl ⟨known, rfl⟩⟩

theorem Finds.of_grantsAll
    {requests : List (String × Field)}
    (finds : Finds schema request)
    (grants : GrantsAll schema requests after) :
    Finds after request := by
  induction grants with
  | nil => exact finds
  | cons first rest inductionHypothesis => exact inductionHypothesis (finds.of_grants first)

/-- All fields of a run are found when it is over. -/
theorem finds_of_grantsAll
    {requests : List (String × Field)}
    (grants : GrantsAll schema requests after) :
    ∀ request ∈ requests, Finds after request := by
  induction grants with
  | nil => exact nofun
  | cons first rest inductionHypothesis =>
      rw [List.forall_mem_cons]
      exact ⟨(finds_of_grants first).of_grantsAll rest, inductionHypothesis⟩

theorem grantsAll_of_finds
    {requests : List (String × Field)}
    (finds : ∀ request ∈ requests, Finds schema request) :
    GrantsAll schema requests schema := by
  induction requests with
  | nil => exact .nil
  | cons request others inductionHypothesis =>
      rw [List.forall_mem_cons] at finds
      exact .cons (grants_of_finds finds.1) (inductionHypothesis finds.2)

end Finding

/-! ### Changes that are made again -/

/-- A change that can be made again. It leaves a schema in which some fields were granted. Once it
has succeeded, it changes nothing any more, whatever is granted in the meantime, and a refusal is
repeated in the schema that it has left. -/
structure Merge.IsRepeatable (change : Merge) : Prop where
  granted : ∀ schema, ∃ requests, GrantsAll schema requests (change.leaves schema)
  settled : ∀ {schema middle later requests}, change schema = .ok () middle →
    GrantsAll middle requests later → change later = .ok () later
  refused : ∀ {schema after cause}, change schema = .error cause after →
    change after = .error cause after

namespace Merge

variable {change : Merge} {schema : Schema}

theorem leaves_of_error {after : Schema} {cause : SourceError}
    (refused : change schema = .error cause after) :
    change.leaves schema = after := by
  rw [leaves, refused]

/-- Made again, a change ends as before and leaves the schema that it has left before. -/
theorem IsRepeatable.again (repeatable : change.IsRepeatable) (schema : Schema) :
    change (change.leaves schema) = change schema := by
  cases outcome : change schema with
  | ok _ after =>
      rw [leaves_of_ok outcome]
      exact repeatable.settled outcome .nil
  | error cause after =>
      rw [leaves_of_error outcome]
      exact repeatable.refused outcome

theorem forM_cons_eq_error
    {α : Type}
    {change : α → Merge}
    {item : α}
    {others : List α}
    {after : Schema}
    {cause : SourceError} :
    ((item :: others).forM change : Merge) schema = .error cause after ↔
      change item schema = .error cause after ∨
        ∃ middle, change item schema = .ok () middle ∧
          (others.forM change : Merge) middle = .error cause after := by
  change EStateM.bind (change item) (fun _ => others.forM change) schema = _ ↔ _
  unfold EStateM.bind
  cases change item schema <;> simp

/-- The second run goes through the items that have succeeded without a change, up to the item that
was refused. -/
theorem isRepeatable_forM
    {α : Type}
    {change : α → Merge}
    {items : List α}
    (each : ∀ item ∈ items, (change item).IsRepeatable) :
    Merge.IsRepeatable (items.forM change) := by
  induction items with
  | nil =>
      constructor
      · exact fun schema => ⟨[], .nil⟩
      · intros
        rfl
      · rintro _ _ _ ⟨⟩
  | cons item others inductionHypothesis =>
      rw [List.forall_mem_cons] at each
      obtain ⟨first, later⟩ := each
      have rest := inductionHypothesis later
      constructor
      · intro schema
        obtain ⟨requests, grants⟩ := first.granted schema
        cases outcome : change item schema with
        | error cause after =>
            rw [leaves_of_error outcome] at grants
            rw [leaves_of_error (forM_cons_eq_error.mpr (.inl outcome))]
            exact ⟨requests, grants⟩
        | ok _ middle =>
            obtain ⟨more, moreGrants⟩ := rest.granted middle
            rw [leaves_of_ok outcome] at grants
            have last : Merge.leaves ((item :: others).forM change) schema =
                Merge.leaves (others.forM change) middle := by
              change Merge.leaves
                (EStateM.bind (change item) fun _ => others.forM change) schema = _
              rw [leaves, EStateM.bind, outcome]
              rfl
            rw [last]
            exact ⟨requests ++ more, grantsAll_append.mpr ⟨middle, grants, moreGrants⟩⟩
      · intro schema after later requests done grants
        obtain ⟨middle, firstOk, restOk⟩ := forM_cons_eq_ok.mp done
        obtain ⟨more, between⟩ := rest.granted middle
        rw [leaves_of_ok restOk] at between
        have whole := grantsAll_append.mpr ⟨after, between, grants⟩
        exact forM_cons_eq_ok.mpr
          ⟨later, first.settled firstOk whole, rest.settled restOk grants⟩
      · intro schema after cause refused
        rcases forM_cons_eq_error.mp refused with firstRefused | ⟨middle, firstOk, restRefused⟩
        · exact forM_cons_eq_error.mpr (.inl (first.refused firstRefused))
        · obtain ⟨more, between⟩ := rest.granted middle
          rw [leaves_of_error restRefused] at between
          exact forM_cons_eq_error.mpr
            (.inr ⟨after, first.settled firstOk between, rest.refused restRefused⟩)

end Merge

/-! ### Merging again -/

/-- A field that is refused leaves the schema as it is. -/
theorem eq_of_mergeField_error
    {schema after : Schema}
    {edition : Edition}
    {scope target name : String}
    {field : FieldDecl}
    {cause : SourceError}
    (refused : mergeField edition scope target name field schema = .error cause after) :
    after = schema := by
  rcases leaves_mergeField schema edition scope target name field with
    same | ⟨lowered, message, lowers, targeted, known, named, inRange, -⟩
  · rwa [Merge.leaves_of_error refused] at same
  · simp only [mergeField, lowers, targeted, known, named, inRange] at refused
    cases refused

theorem isRepeatable_mergeField
    (edition : Edition)
    (scope target name : String)
    (field : FieldDecl) :
    (mergeField edition scope target name field).IsRepeatable := by
  constructor
  · intro schema
    cases outcome : mergeField edition scope target name field schema with
    | ok _ after =>
        obtain ⟨wanted, -, grants⟩ := mergeField_eq_ok.mp outcome
        exact ⟨wanted, (Merge.leaves_of_ok outcome).symm ▸ grants⟩
    | error cause after =>
        refine ⟨[], ?_⟩
        rw [Merge.leaves_of_error outcome, eq_of_mergeField_error outcome]
        exact .nil
  · intro schema middle later requests done grants
    obtain ⟨wanted, wantedOk, wantedGrants⟩ := mergeField_eq_ok.mp done
    have outline := grants.outline.trans wantedGrants.outline
    rw [← FieldDecl.request_of_outline outline] at wantedOk
    refine mergeField_eq_ok.mpr ⟨wanted, wantedOk, grantsAll_of_finds fun request member => ?_⟩
    exact (finds_of_grantsAll wantedGrants request member).of_grantsAll grants
  · intro schema after cause refused
    rw [eq_of_mergeField_error refused]
    rwa [eq_of_mergeField_error refused] at refused

theorem isRepeatable_mergeBlock
    (edition : Edition)
    (scope : String)
    (block : ExtendDecl) :
    (mergeBlock edition scope block).IsRepeatable := by
  have fields (target : String) := Merge.isRepeatable_forM fun field (_ : field ∈ block.fields) =>
    isRepeatable_mergeField edition scope target block.name field
  have resolved {schema after : Schema} {requests : List (String × Field)}
      (grants : GrantsAll schema requests after) :=
    extensionTarget?_of_outline grants.outline scope block.name
  constructor
  · intro schema
    cases targeted : extensionTarget? schema scope block.name with
    | none =>
        rw [Merge.leaves, mergeBlock_of_none targeted]
        exact ⟨[], .nil⟩
    | some target =>
        rw [Merge.leaves, mergeBlock_of_some targeted]
        exact (fields target).granted schema
  · intro schema middle later requests done grants
    obtain ⟨target, targeted, run⟩ := mergeBlock_ok done
    obtain ⟨before, beforeGrants⟩ := (fields target).granted schema
    rw [Merge.leaves_of_ok run] at beforeGrants
    rw [← resolved beforeGrants, ← resolved grants] at targeted
    rw [mergeBlock_of_some targeted]
    exact (fields target).settled run grants
  · intro schema after cause refused
    cases targeted : extensionTarget? schema scope block.name with
    | none =>
        rw [mergeBlock_of_none targeted] at refused
        cases refused
        exact mergeBlock_of_none targeted edition
    | some target =>
        rw [mergeBlock_of_some targeted] at refused
        obtain ⟨before, beforeGrants⟩ := (fields target).granted schema
        rw [Merge.leaves_of_error refused] at beforeGrants
        rw [← resolved beforeGrants] at targeted
        rw [mergeBlock_of_some targeted]
        exact (fields target).refused refused

theorem isRepeatable_mergeFile (file : FileDecl) : (mergeFile file).IsRepeatable :=
  Merge.isRepeatable_forM fun block _ => isRepeatable_mergeBlock file.edition block.1 block.2

/-- Merging a file again ends as the first time, with the same success or the same error, and leaves
the schema exactly as the first merge has left it. -/
theorem mergeFile_again (file : FileDecl) (schema : Schema) :
    mergeFile file ((mergeFile file).leaves schema) = mergeFile file schema :=
  (isRepeatable_mergeFile file).again schema

end ProtoWire.Proto
