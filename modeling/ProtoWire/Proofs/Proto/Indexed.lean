import ProtoWire.Proofs.Outcome
import ProtoWire.Proofs.Schema.Indexed
import ProtoWire.Proto.Indexed

/-!
Contract: a compilation that looks definitions up by maps ends as one that searches lists. After
every pass, and wherever an extension stops, the maps agree with the lists.

Owns:
- the types and the fields that declarations stand for, with maps and without them;
- the passes of a compilation, with maps and without them;
- the extension of a schema, with maps and without them.

Does not own: what compiled schemas hold, or the rules that they obey.
-/

namespace ProtoWire.Proto.Indexed

open Outcome

variable {schema : IndexedSchema}

/-! ### Types and fields -/

theorem resolveType_eq (agrees : schema.Agrees) (scope name : String) :
    resolveType schema scope name = Proto.resolveType schema.plain scope name := by
  unfold resolveType Proto.resolveType
  rw [funext agrees.index_eq]

theorem lower_eq
    (agrees : schema.Agrees)
    (edition : Edition)
    (scope message : String)
    (field : FieldDecl) :
    lower schema edition scope message field =
      field.lower schema.plain edition scope message := by
  unfold lower FieldDecl.lower
  rw [resolveType_eq agrees]

/-! ### Definitions -/

theorem declare_alike (agrees : schema.Agrees) (definition : Definition) :
    EndAlike (declare schema definition) (Proto.declare schema.plain definition) := by
  unfold declare Proto.declare
  rw [← agrees.index_eq, Option.isSome_map]
  split
  · exact .error _
  · obtain ⟨same, kindAgrees⟩ := IndexedKind.ofKind_eq definition.kind
    have registered := agrees.register definition.name kindAgrees
    rw [same] at registered
    exact registered.mapError SourceError.wire

theorem defineField_alike
    (edition : Edition)
    (message : String)
    (agrees : schema.Agrees)
    (field : FieldDecl) :
    EndAlike (defineField edition message schema field)
      (Proto.defineField edition message schema.plain field) := by
  unfold defineField Proto.defineField
  cases field.map with
  | none =>
      simp only [lower_eq agrees]
      exact EndAlike.after fun lowered => agrees.pushField_alike message lowered
  | some map =>
      simp only [lower_eq agrees]
      refine EndAlike.after fun key => ?_
      obtain ⟨keyed, sameKey⟩ := agrees.pushField (mapEntryName message field.name) key
      rw [← sameKey, lower_eq keyed]
      refine EndAlike.after fun value => ?_
      obtain ⟨filled, sameValue⟩ := keyed.pushField (mapEntryName message field.name) value
      rw [← sameValue, filled.resolve_eq]
      exact EndAlike.after fun type => filled.pushField_alike message _

theorem defineFile_alike (agrees : schema.Agrees) (file : FileDecl) :
    EndAlike (defineFile schema file) (Proto.defineFile schema.plain file) := by
  refine EndAlike.foldlM (fun current named currentAgrees => ?_) agrees _
  exact EndAlike.foldlM
    (fun _ field fieldAgrees => defineField_alike file.edition named.1 fieldAgrees field)
    currentAgrees _

/-! ### Extensions -/

/-- Two extensions end alike: both stop with one cause or succeed, and leave the same definitions,
of which the first has maps that agree. -/
inductive LeaveAlike :
    EStateM.Result SourceError IndexedSchema Unit → EStateM.Result SourceError Schema Unit → Prop
    where
  | ok {schema : IndexedSchema} (agrees : schema.Agrees) :
      LeaveAlike (.ok () schema) (.ok () schema.plain)
  | error (cause : SourceError) {schema : IndexedSchema} (agrees : schema.Agrees) :
      LeaveAlike (.error cause schema) (.error cause schema.plain)

/-- What asks for the schema first ends alike if what follows does. -/
theorem LeaveAlike.get
    {next : IndexedSchema → Merge}
    {plainNext : Schema → Proto.Merge}
    (alike : LeaveAlike (next schema schema) (plainNext schema.plain schema.plain)) :
    LeaveAlike ((get >>= next : Merge) schema) ((get >>= plainNext : Proto.Merge) schema.plain) :=
  alike

/-- If every step of an extension ends alike, the extension ends alike. -/
theorem LeaveAlike.forM
    {α : Type}
    {change : α → Merge}
    {plainChange : α → Proto.Merge}
    (changes : ∀ (schema : IndexedSchema) item, schema.Agrees →
      LeaveAlike (change item schema) (plainChange item schema.plain))
    (agrees : schema.Agrees)
    (items : List α) :
    LeaveAlike (items.forM change schema) (items.forM plainChange schema.plain) := by
  induction items generalizing schema with
  | nil => exact .ok agrees
  | cons item others inductionHypothesis =>
      change LeaveAlike (EStateM.bind (change item) (fun _ => others.forM change) schema)
        (EStateM.bind (plainChange item) (fun _ => others.forM plainChange) schema.plain)
      unfold EStateM.bind
      have first := changes schema item agrees
      revert first
      cases change item schema <;> cases plainChange item schema.plain <;> intro first <;> cases first
      · rename_i after
        exact inductionHypothesis after
      · rename_i after
        exact .error _ after

theorem message_eq (agrees : schema.Agrees) (name : String) :
    (schema.plain.definitionByName? name).bind Definition.message? =
      ((schema.definitionByName? name).bind IndexedDefinition.message?).map
        IndexedMessage.toMessageType := by
  rw [agrees.definitionByName?_eq, Option.bind_map, Option.map_bind]
  congr 1
  funext definition
  exact IndexedSchema.message?_plain definition

theorem extensionTarget?_eq (agrees : schema.Agrees) (scope name : String) :
    extensionTarget? schema scope name = Proto.extensionTarget? schema.plain scope name := by
  unfold extensionTarget? Proto.extensionTarget?
  rw [resolveType_eq agrees]
  cases Proto.resolveType schema.plain scope name with
  | none => rfl
  | some type =>
      cases type with
      | scalar type => rfl
      | definition index =>
          simp only [IndexedSchema.definition?_plain]
          rcases schema.definition? index with _ | ⟨full, place, _ | _ | _⟩ <;> rfl

theorem mergeField_alike
    (edition : Edition)
    (scope target name : String)
    (agrees : schema.Agrees)
    (field : FieldDecl) :
    LeaveAlike (mergeField edition scope target name field schema)
      (Proto.mergeField edition scope target name field schema.plain) := by
  unfold mergeField Proto.mergeField
  rw [lower_eq agrees, message_eq agrees]
  cases field.lower schema.plain edition scope target with
  | error cause => exact .error cause agrees
  | ok lowered =>
      cases found : (schema.definitionByName? target).bind IndexedDefinition.message? with
      | none => exact .error _ agrees
      | some message =>
          have maps := agrees.of_message? found
          simp only [Option.map_some, maps.fieldByTag?_eq, maps.fieldByName?_eq]
          cases message.toMessageType.fieldByTag? lowered.tag with
          | some known =>
              by_cases same : known = lowered
              · simp only [if_pos same]
                exact .ok agrees
              · simp only [if_neg same]
                exact .error _ agrees
          | none =>
              simp only
              split
              · exact .error _ agrees
              · split
                · obtain ⟨after, same⟩ := agrees.pushField target lowered
                  rw [← same]
                  exact .ok after
                · exact .error _ agrees

theorem mergeBlock_alike
    (edition : Edition)
    (scope : String)
    (agrees : schema.Agrees)
    (block : ExtendDecl) :
    LeaveAlike (mergeBlock edition scope block schema)
      (Proto.mergeBlock edition scope block schema.plain) := by
  unfold mergeBlock Proto.mergeBlock
  refine LeaveAlike.get ?_
  simp only [extensionTarget?_eq agrees]
  cases Proto.extensionTarget? schema.plain scope block.name with
  | none => exact .error _ agrees
  | some target =>
      exact LeaveAlike.forM
        (fun _ field fieldAgrees =>
          mergeField_alike edition scope target block.name fieldAgrees field)
        agrees block.fields

theorem mergeFile_alike (agrees : schema.Agrees) (file : FileDecl) :
    LeaveAlike (mergeFile file schema) (Proto.mergeFile file schema.plain) :=
  LeaveAlike.forM
    (fun _ block blockAgrees => mergeBlock_alike file.edition block.1 blockAgrees block.2)
    agrees file.extensionBlocks

/-! ### Compilation -/

/-- A compilation by maps and one by searches end alike. -/
theorem compileFiles_alike (files : List FileDecl) :
    EndAlike (compileFiles files) (Proto.compileFiles files) := by
  unfold compileFiles Proto.compileFiles
  refine EndAlike.after fun _ => ?_
  have declared := EndAlike.foldlM (fun current definition agrees => declare_alike agrees definition)
    IndexedSchema.agrees_empty (files.flatMap FileDecl.definitions)
  refine declared.bind fun declared agrees => ?_
  refine (EndAlike.foldlM (fun _ file agrees => defineFile_alike agrees file) agrees files).bind
    fun defined agrees => ?_
  have merged := LeaveAlike.forM (fun _ file agrees => mergeFile_alike agrees file) agrees files
  revert merged
  generalize files.forM mergeFile defined = outcome
  generalize files.forM Proto.mergeFile defined.plain = plainOutcome
  intro merged
  cases merged with
  | ok agrees => exact .ok agrees
  | error cause agrees => exact .error cause

end ProtoWire.Proto.Indexed
