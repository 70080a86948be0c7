import ProtoWire.Proto.Compilation
import ProtoWire.Schema.Indexed

/-!
Contract: compiling and extending schemas that keep maps beside their lists. The passes are those
of a compilation; what they look up, they look up by the maps.

Owns:
- the type that a name means, and the fields of declarations;
- the passes over files, and the extension of a schema by a file.

Does not own: the definitions that declarations give rise to, or the rules on declarations.
-/

namespace ProtoWire.Proto.Indexed

/-! ### Types and fields -/

/-- The type that a name means in a scope. A definition says itself where it stands. -/
def resolveType (schema : IndexedSchema) (scope name : String) : Option TypeRef :=
  resolveTypeBy
    (fun full => (schema.definitionByName? full).map IndexedDefinition.index) scope name

/-- A field with its type resolved from a scope. Kinds of types are found by place. -/
def lower
    (schema : IndexedSchema)
    (edition : Edition)
    (scope message : String)
    (field : FieldDecl) :
    Except SourceError Field :=
  field.lowerAs schema.plain edition message (resolveType schema scope field.type)

/-! ### Definitions -/

/-- Registers a definition under a new name. -/
def declare (schema : IndexedSchema) (definition : Definition) :
    Except SourceError IndexedSchema :=
  if (schema.definitionByName? definition.name).isSome then
    .error (.duplicateType definition.name)
  else (schema.register definition.name (.ofKind definition.kind)).mapError .wire

/-- Appends a field to a message. The entry of a map field gets its key and its value
first. -/
def defineField
    (edition : Edition)
    (message : String)
    (schema : IndexedSchema)
    (field : FieldDecl) :
    Except SourceError IndexedSchema :=
  match field.map with
  | none => do
      let lowered ← lower schema edition message message field
      pure (schema.pushField message lowered)
  | some map => do
      let entry := mapEntryName message field.name
      let key ← lower schema edition message entry (entryField field "key" 1 map.key)
      let schema := schema.pushField entry key
      let value ← lower schema edition message entry (entryField field "value" 2 map.value)
      let schema := schema.pushField entry value
      let type ← (schema.resolve entry).mapError .wire
      pure (schema.pushField message ⟨field.name, field.tag, type, .repeated, false⟩)

/-- Appends the fields of all messages of a file. -/
def defineFile (schema : IndexedSchema) (file : FileDecl) : Except SourceError IndexedSchema :=
  file.messagesWithNames.foldlM
    (fun schema message => message.2.fields.foldlM (defineField file.edition message.1) schema)
    schema

/-! ### Extensions -/

/-- A change of a schema. On an error the changes made before it stay. -/
abbrev Merge : Type :=
  EStateM SourceError IndexedSchema Unit

/-- The message that an extend block in a scope extends, by its full name. -/
def extensionTarget? (schema : IndexedSchema) (scope name : String) : Option String :=
  match resolveType schema scope name with
  | some (.definition index) => do
      let definition ← schema.definition? index
      let _ ← definition.message?
      pure definition.name
  | _ => none

/-- Adds a field to a message of the schema. A field that is there already changes
nothing. -/
def mergeField
    (edition : Edition)
    (scope target name : String)
    (field : FieldDecl) :
    Merge := fun schema =>
  match lower schema edition scope target field with
  | .error cause => .error cause schema
  | .ok lowered =>
      match (schema.definitionByName? target).bind IndexedDefinition.message? with
      | none => .error (.unknownExtensionTarget name) schema
      | some message =>
          match message.fieldByTag? lowered.tag with
          | some known =>
              if known = lowered then .ok () schema
              else .error (.duplicateTag target lowered.tag) schema
          | none =>
              if (message.fieldByName? lowered.name).isSome then
                .error (.duplicateField target lowered.name) schema
              else if message.inExtensionRange lowered.tag then
                .ok () (schema.pushField target lowered)
              else .error (.extensionOutOfRange target lowered.name lowered.tag) schema

/-- Adds the fields of an extend block to the message that it extends. -/
def mergeBlock (edition : Edition) (scope : String) (block : ExtendDecl) : Merge := do
  match extensionTarget? (← get) scope block.name with
  | none => throw (.unknownExtensionTarget block.name)
  | some target => block.fields.forM (mergeField edition scope target block.name)

/-- Adds the fields of all extend blocks of a file. -/
def mergeFile (file : FileDecl) : Merge :=
  file.extensionBlocks.forM fun block => mergeBlock file.edition block.1 block.2

/-! ### Compilation -/

/-- The schema of some files. -/
def compileFiles (files : List FileDecl) : Except SourceError IndexedSchema := do
  files.forM FileDecl.check
  let declared ← (files.flatMap FileDecl.definitions).foldlM declare .empty
  let defined ← files.foldlM defineFile declared
  match (files.forM mergeFile : Merge) defined with
  | .ok _ schema => .ok schema
  | .error cause _ => .error cause

end ProtoWire.Proto.Indexed
