import Mathlib.Data.List.Forall2
import ProtoWire.Proofs.Proto.Enclosure
import ProtoWire.Proofs.Proto.Lowering

/-!
Contract: what the declarations of files mean, in one pass over their syntax. The fields, messages,
enums and files are related to their definitions in a schema that is complete already, with every
type name resolved in it, so that no order of compilation shows. The relations ask nothing of how
names, labels and entries are made; the functions that make them are shown to obey the relations.

Owns:
- full names, and the labels of fields;
- the field that a field declaration stands for, and the entry of a map field;
- the fields that extend blocks add to a message;
- the definitions that enums, messages and files stand for;
- the independence of all of these from the fields of the schema.

Does not own: how definitions are compiled.
-/

namespace ProtoWire.Proto

/-! ### Names and labels -/

/-- The full name of what is declared in a scope: the scope, a point and the name, or the name alone
at the root. -/
inductive FullName (name : String) : String → String → Prop where
  | root : FullName name "" name
  | inside {scope : String} (named : scope ≠ "") : FullName name scope (scope ++ "." ++ name)

/-- The label that a field has for the one in front of its declaration. Without one, it is
optional. -/
inductive FieldLabel.StandsFor : FieldLabel → Label → Prop where
  | none : FieldLabel.StandsFor .none .optional
  | optional : FieldLabel.StandsFor .optional .optional
  | required : FieldLabel.StandsFor .required .required
  | repeated : FieldLabel.StandsFor .repeated .repeated

theorem fullName_joinName (scope name : String) : FullName name scope (joinName scope name) := by
  unfold joinName
  split
  · rename_i root
    obtain rfl := String.isEmpty_iff.mp root
    exact .root
  · rename_i named
    exact .inside fun root => named (String.isEmpty_iff.mpr root)

theorem FieldLabel.standsFor_lower (label : FieldLabel) : label.StandsFor label.lower := by
  cases label with
  | none => exact .none
  | optional => exact .optional
  | required => exact .required
  | repeated => exact .repeated

/-! ### Fields -/

/-- A field has the name, the number and the label of its declaration. Its type is what the type
name means in the scope of the declaration. It is packed if it is repeated, its elements delimit
themselves, and the option or else the edition says so. -/
structure FieldDecl.LowersTo
    (schema : Schema)
    (edition : Edition)
    (scope : String)
    (declaration : FieldDecl)
    (field : Field) : Prop where
  name : field.name = declaration.name
  tag : field.tag = declaration.tag
  label : declaration.label.StandsFor field.label
  type : resolveType schema scope declaration.type = some field.type
  packed : field.packed = true ↔
    field.label = .repeated ∧ schema.IsPackable field.type ∧
      (declaration.packed = some true ∨ declaration.packed = none ∧ edition = .proto3)

/-- The field of a message that a declaration stands for. A map field is a list of entries. -/
def FieldDecl.Defines
    (schema : Schema)
    (edition : Edition)
    (message : String)
    (declaration : FieldDecl)
    (field : Field) : Prop :=
  match declaration.map with
  | none => declaration.LowersTo schema edition message field
  | some _ => ∃ index kind,
      schema.definition? index = some ⟨message ++ "_" ++ declaration.name ++ "_entry", kind⟩ ∧
        field = ⟨declaration.name, declaration.tag, .definition index, .repeated, false⟩

/-- The entry of a map field: a message with a key and a value, and with nothing else. -/
def FieldDecl.DefinesEntry
    (schema : Schema)
    (message : String)
    (declaration : FieldDecl)
    (entry : Definition) : Prop :=
  ∃ map key value,
    declaration.map = some map ∧
      resolveType schema message map.key = some key ∧
      resolveType schema message map.value = some value ∧
      entry =
        ⟨message ++ "_" ++ declaration.name ++ "_entry",
          .message
            ⟨[⟨"key", 1, key, .optional, false⟩, ⟨"value", 2, value, .optional, false⟩], []⟩⟩

/-- A field that an extend block of some files adds to a message. The name in front of the block
and the type of the field are resolved in the scope of the block. -/
def Extends
    (schema : Schema)
    (files : List FileDecl)
    (message : String)
    (field : Field) : Prop :=
  ∃ file ∈ files, ∃ block, file.Holds block ∧ ∃ declaration ∈ block.2.fields,
    (∃ index type, resolveType schema block.1 block.2.name = some (.definition index) ∧
      schema.definition? index = some ⟨message, .message type⟩) ∧
    declaration.LowersTo schema file.edition block.1 field

/-! ### Enums, messages and files -/

/-- The value of an enum that a declaration stands for. -/
structure EnumValueDecl.Defines (declaration : EnumValueDecl) (value : EnumValue) : Prop where
  name : value.name = declaration.name
  number : value.number = declaration.number

/-- The definition of an enum, with its values in the order of their declarations. -/
def EnumDecl.Defines (scope : String) (declaration : EnumDecl) (definition : Definition) : Prop :=
  ∃ full values, FullName declaration.name scope full ∧
    List.Forall₂ EnumValueDecl.Defines declaration.values values ∧
    definition = ⟨full, .enum ⟨values⟩⟩

mutual

/-- The definitions of a message: the message itself, the entries of its maps, and what is declared
inside of it. Its own fields come first, and then those of extend blocks, each of them once. -/
inductive MessageDecl.Defines
    (schema : Schema)
    (edition : Edition)
    (extension : String → Field → Prop) :
    String → MessageDecl → List Definition → Prop where
  | intro {scope name full : String} {position : Position} {fields : List FieldDecl}
      {messages : List MessageDecl} {enums : List EnumDecl} {extensions : List ExtendDecl}
      {ranges : List ExtensionRange} {own added : List Field}
      {entries inner enumDefinitions : List Definition}
      (named : FullName name scope full)
      (ownFields : List.Forall₂ (FieldDecl.Defines schema edition full) fields own)
      (addedFields : ∀ field ∈ added, extension full field)
      (once : (added.map Field.tag).Nodup)
      (mapEntries : List.Forall₂ (FieldDecl.DefinesEntry schema full)
        (fields.filter fun field => field.map.isSome) entries)
      (nested : MessagesDefine schema edition extension full messages inner)
      (nestedEnums : List.Forall₂ (EnumDecl.Defines full) enums enumDefinitions) :
      MessageDecl.Defines schema edition extension scope
        ⟨name, position, fields, messages, enums, extensions, ranges⟩
        (⟨full, .message ⟨own ++ added, ranges.map fun range => (range.start, range.stop)⟩⟩ ::
          (entries ++ (inner ++ enumDefinitions)))

inductive MessagesDefine
    (schema : Schema)
    (edition : Edition)
    (extension : String → Field → Prop) :
    String → List MessageDecl → List Definition → Prop where
  | nil {scope : String} : MessagesDefine schema edition extension scope [] []
  | cons {scope : String} {message : MessageDecl} {others : List MessageDecl}
      {first rest : List Definition}
      (head : MessageDecl.Defines schema edition extension scope message first)
      (tail : MessagesDefine schema edition extension scope others rest) :
      MessagesDefine schema edition extension scope (message :: others) (first ++ rest)

end

/-- The definitions of a file: its messages, and the enums at its top level. The scope of both is
the package. -/
def FileDecl.Defines
    (schema : Schema)
    (extension : String → Field → Prop)
    (file : FileDecl)
    (definitions : List Definition) : Prop :=
  ∃ inner enumDefinitions,
    MessagesDefine schema file.edition extension (file.package.getD "") file.messages inner ∧
      List.Forall₂ (EnumDecl.Defines (file.package.getD "")) file.enums enumDefinitions ∧
      definitions = inner ++ enumDefinitions

theorem EnumDecl.defines_definition (scope : String) (enum : EnumDecl) :
    enum.Defines scope (enum.definition scope) := by
  refine ⟨_, _, fullName_joinName scope enum.name, ?_, rfl⟩
  rw [List.forall₂_map_right_iff, List.forall₂_same]
  exact fun _ _ => ⟨rfl, rfl⟩

theorem forall₂_enumDefinitions (scope : String) (enums : List EnumDecl) :
    List.Forall₂ (EnumDecl.Defines scope) enums (enums.map (EnumDecl.definition scope)) := by
  rw [List.forall₂_map_right_iff, List.forall₂_same]
  exact fun enum _ => enum.defines_definition scope

/-! ### Outlines -/

section Transport

variable
  {schema other : Schema}
  {edition : Edition}
  {message scope : String}
  {declaration : FieldDecl}
  {field : Field}

theorem FieldDecl.LowersTo.transport
    (same : other.outline = schema.outline)
    (lowers : declaration.LowersTo schema edition scope field) :
    declaration.LowersTo other edition scope field where
  name := lowers.name
  tag := lowers.tag
  label := lowers.label
  type := by
    rw [resolveType_of_outline same]
    exact lowers.type
  packed := by
    rw [Schema.isPackable_iff, Schema.wireType_of_outline same, ← Schema.isPackable_iff]
    exact lowers.packed

theorem FieldDecl.Defines.transport
    (same : other.outline = schema.outline)
    (defines : declaration.Defines schema edition message field) :
    declaration.Defines other edition message field := by
  unfold FieldDecl.Defines at defines ⊢
  split
  · rename_i plain
    rw [plain] at defines
    exact defines.transport same
  · rename_i map mapped
    rw [mapped] at defines
    obtain ⟨index, kind, found, shape⟩ := defines
    obtain ⟨again, place⟩ := Schema.name_of_outline same found
    exact ⟨index, again, place, shape⟩

theorem FieldDecl.DefinesEntry.transport
    {entry : Definition}
    (same : other.outline = schema.outline)
    (defines : declaration.DefinesEntry schema message entry) :
    declaration.DefinesEntry other message entry := by
  obtain ⟨map, key, value, mapped, keyType, valueType, shape⟩ := defines
  rw [← resolveType_of_outline same] at keyType valueType
  exact ⟨map, key, value, mapped, keyType, valueType, shape⟩

theorem Extends.transport
    {files : List FileDecl}
    (same : other.outline = schema.outline)
    (adds : Extends schema files message field) :
    Extends other files message field := by
  obtain ⟨file, inside, block, own, declaration, declared, target, lowers⟩ := adds
  obtain ⟨index, type, resolved, found⟩ := target
  rw [← resolveType_of_outline same] at resolved
  obtain ⟨fields, place⟩ := Schema.message_of_outline same found
  exact ⟨file, inside, block, own, declaration, declared, ⟨index, _, resolved, place⟩,
    lowers.transport same⟩

end Transport

end ProtoWire.Proto
