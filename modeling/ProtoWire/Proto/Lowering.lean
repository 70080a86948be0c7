import ProtoWire.Proto.Error
import ProtoWire.Proto.Scope

/-!
Contract: the definitions that the declarations of files compile to.

Owns:
- the definitions that a message and an enum give rise to, in order;
- the fields of messages with their types resolved, and the entries of maps;
- the fields that extend blocks add.

Does not own: the rules on single declarations, or reading sources.
-/

namespace ProtoWire.Proto

/-! ### Declaring -/

def EnumDecl.definition (scope : String) (enum : EnumDecl) : Definition :=
  ⟨joinName scope enum.name,
    .enum ⟨enum.values.map fun value => ⟨value.name, value.number⟩⟩⟩

/-- The definition of a message before its fields are known. -/
def bareMessage (name : String) (ranges : List ExtensionRange) : Definition :=
  ⟨name, .message ⟨[], ranges.map fun range => (range.start, range.stop)⟩⟩

/-- The definitions of the entries of map fields. -/
def mapEntryDefinitions (message : String) (fields : List FieldDecl) : List Definition :=
  (fields.filter fun field => field.map.isSome).map fun field =>
    ⟨mapEntryName message field.name, .message .empty⟩

mutual

/-- A message, the entries of its maps, and what is declared inside of it. -/
def MessageDecl.definitions (scope : String) : MessageDecl → List Definition
  | ⟨name, _, fields, messages, enums, _, ranges⟩ =>
      let full := joinName scope name
      bareMessage full ranges ::
        (mapEntryDefinitions full fields ++
          (definitionsOfMessages full messages ++ enums.map (EnumDecl.definition full)))

def definitionsOfMessages (scope : String) : List MessageDecl → List Definition
  | [] => []
  | message :: others => message.definitions scope ++ definitionsOfMessages scope others

end

/-- All definitions of a file: first the messages, then the enums at the top level. -/
def FileDecl.definitions (file : FileDecl) : List Definition :=
  definitionsOfMessages file.scope file.messages ++
    file.enums.map (EnumDecl.definition file.scope)

/-- Registers a definition under a new name. -/
def declare (schema : Schema) (definition : Definition) : Except SourceError Schema :=
  if (schema.indexOf? definition.name).isSome then .error (.duplicateType definition.name)
  else (schema.register definition.name definition.kind).mapError .wire

/-! ### Fields -/

def FieldLabel.lower : FieldLabel → Label
  | .none | .optional => .optional
  | .required => .required
  | .repeated => .repeated

/-- Whether a type can be the type of a field. Framed messages cannot. -/
def isFieldType (schema : Schema) : TypeRef → Bool
  | .scalar _ => true
  | .definition index =>
      match (schema.definition? index).map Definition.kind with
      | some (.framed _) => false
      | _ => true

/-- The field of a declaration whose type name means a type, if it means any. Without the option,
elements that delimit themselves are packed in the newer edition only. -/
def FieldDecl.lowerAs
    (schema : Schema)
    (edition : Edition)
    (message : String)
    (field : FieldDecl)
    (type? : Option TypeRef) :
    Except SourceError Field :=
  match type?.filter (isFieldType schema) with
  | none => .error (.unknownFieldType message field.name field.type)
  | some type =>
      let label := field.label.lower
      let packed :=
        label == .repeated && schema.wireType type != .lengthDelimited &&
          field.packed.getD (edition == .proto3)
      .ok ⟨field.name, field.tag, type, label, packed⟩

/-- A field with its type resolved from a scope. -/
def FieldDecl.lower
    (schema : Schema)
    (edition : Edition)
    (scope message : String)
    (field : FieldDecl) :
    Except SourceError Field :=
  field.lowerAs schema edition message (resolveType schema scope field.type)

/-- The declaration of one half of the entry of a map field. -/
def entryField (field : FieldDecl) (name : String) (tag : Nat) (type : String) : FieldDecl :=
  ⟨name, field.position, type, tag, .optional, none, none⟩

/-- Appends a field to a message. The entry of a map field gets its key and its value
first. -/
def defineField
    (edition : Edition)
    (message : String)
    (schema : Schema)
    (field : FieldDecl) :
    Except SourceError Schema :=
  match field.map with
  | none => do
      let lowered ← field.lower schema edition message message
      pure (schema.pushField message lowered)
  | some map => do
      let entry := mapEntryName message field.name
      let key ← (entryField field "key" 1 map.key).lower schema edition message entry
      let schema := schema.pushField entry key
      let value ← (entryField field "value" 2 map.value).lower schema edition message entry
      let schema := schema.pushField entry value
      let type ← (schema.resolve entry).mapError .wire
      pure (schema.pushField message ⟨field.name, field.tag, type, .repeated, false⟩)

/-- Appends the fields of all messages of a file. -/
def defineFile (schema : Schema) (file : FileDecl) : Except SourceError Schema :=
  file.messagesWithNames.foldlM
    (fun schema message => message.2.fields.foldlM (defineField file.edition message.1) schema)
    schema

/-! ### Extensions -/

/-- A change of a schema. On an error the changes made before it stay. -/
abbrev Merge : Type :=
  EStateM SourceError Schema Unit

/-- The message that an extend block in a scope extends, by its full name. -/
def extensionTarget? (schema : Schema) (scope name : String) : Option String :=
  match resolveType schema scope name with
  | some (.definition index) => do
      let definition ← schema.definition? index
      let _ ← definition.message?
      pure definition.name
  | _ => none

/-- Adds a field to a message of the schema. A field that is there already changes
nothing. -/
def mergeField
    (edition : Edition)
    (scope target name : String)
    (field : FieldDecl) :
    Merge := fun schema =>
  match field.lower schema edition scope target with
  | .error cause => .error cause schema
  | .ok lowered =>
      match (schema.definitionByName? target).bind Definition.message? with
      | none => .error (.unknownExtensionTarget name) schema
      | some message =>
          match message.fieldByTag? lowered.tag with
          | some known =>
              if known = lowered then .ok () schema
              else .error (.duplicateTag target lowered.tag) schema
          | none =>
              if (message.fieldByName? lowered.name).isSome then
                .error (.duplicateField target lowered.name) schema
              else if message.inExtensionRange lowered.tag then
                .ok () (schema.pushField target lowered)
              else .error (.extensionOutOfRange target lowered.name lowered.tag) schema

/-- Adds the fields of an extend block to the message that it extends. -/
def mergeBlock (edition : Edition) (scope : String) (block : ExtendDecl) : Merge := do
  match extensionTarget? (← get) scope block.name with
  | none => throw (.unknownExtensionTarget block.name)
  | some target => block.fields.forM (mergeField edition scope target block.name)

/-- The extend blocks of a file and the scopes in which they stand. -/
def FileDecl.extensionBlocks (file : FileDecl) : List (String × ExtendDecl) :=
  file.extensions.map (fun block => (file.scope, block)) ++
    file.messagesWithNames.flatMap fun message =>
      message.2.extensions.map fun block => (message.1, block)

/-- Adds the fields of all extend blocks of a file. -/
def mergeFile (file : FileDecl) : Merge :=
  file.extensionBlocks.forM fun block => mergeBlock file.edition block.1 block.2

end ProtoWire.Proto
