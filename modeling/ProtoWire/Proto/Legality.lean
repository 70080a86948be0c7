import ProtoWire.Proto.Declaration
import ProtoWire.Proto.Error
import ProtoWire.Scalar

/-!
Contract: the rules that declarations obey whatever their names refer to.

Owns:
- the rules on field numbers, labels, maps, options, ranges and enums;
- the order in which they are checked, which decides between several violations.

Does not own: rules that need the types of other declarations.
-/

namespace ProtoWire.Proto

/-- The field numbers that no source may use. -/
def Tag.isReserved (tag : Nat) : Bool :=
  19000 ≤ tag && tag ≤ 19999

/-- The field numbers that fit into a key. -/
def Tag.isInRange (tag : Nat) : Bool :=
  ProtoWire.Tag.min ≤ tag && tag ≤ ProtoWire.Tag.max

/-- Maps have integers, truth values or text as keys. -/
def mapKeyTypes : List String :=
  ["int32", "int64", "uint32", "uint64", "sint32", "sint64",
   "fixed32", "fixed64", "sfixed32", "sfixed64", "bool", "string"]

/-- A check: nothing, or the first violation. -/
abbrev Check : Type :=
  Except SourceError Unit

/-- A violation is reported if it holds. -/
def refuse (violated : Bool) (error : SourceError) : Check :=
  if violated then .error error else .ok ()

/-- Whether the type of a field can have packed elements, as far as its name shows. -/
def FieldDecl.mayBePacked (field : FieldDecl) : Bool :=
  (Scalar.ofName? field.type).all Scalar.isPackable

/-- Whether a range holds a field number. -/
def ExtensionRange.contains (range : ExtensionRange) (tag : Nat) : Bool :=
  range.start ≤ tag && tag ≤ range.stop

/-- The rules on a single field of a message. -/
def FieldDecl.check (message : String) (field : FieldDecl) : Check := do
  refuse (!Tag.isInRange field.tag) (.illegal (.tagOutOfRange field.name message))
  refuse (Tag.isReserved field.tag) (.illegal (.reservedTag field.tag field.name message))
  match field.map with
  | none => pure ()
  | some map => do
      refuse (field.label != .none) (.illegal (.labelledMap field.name message))
      refuse (!mapKeyTypes.contains map.key)
        (.illegal (.invalidMapKey map.key field.name message))
  refuse
    (field.packed.isSome &&
      (field.label != .repeated || field.map.isSome || !field.mayBePacked))
    (.illegal (.misplacedPacked field.name message))

/-- The rules on the fields of a message, each together with those before it. -/
def checkFields (edition : Edition) (message : String) :
    List FieldDecl → List FieldDecl → Check
  | _, [] => .ok ()
  | earlier, field :: others => do
      field.check message
      refuse (earlier.any fun other => other.tag == field.tag)
        (.duplicateTag message field.tag)
      refuse (earlier.any fun other => other.name == field.name)
        (.duplicateField message field.name)
      refuse (edition == .proto3 && field.label == .required)
        (.illegal (.requiredInProto3 field.name message))
      checkFields edition message (earlier ++ [field]) others

/-- The rules on an extension range of a message with some fields. -/
def ExtensionRange.check
    (message : String)
    (fields : List FieldDecl)
    (range : ExtensionRange) :
    Check := do
  refuse
    (range.start < ProtoWire.Tag.min || ProtoWire.Tag.max < range.stop ||
      range.stop < range.start)
    (.illegal (.invalidRange range.start range.stop message))
  match fields.find? fun field => range.contains field.tag with
  | none => .ok ()
  | some field => .error (.illegal (.tagInExtensionRange field.name message))

/-- The rules on the values of an enum, each together with those before it. -/
def checkEnumValues (enum : String) : List EnumValueDecl → List EnumValueDecl → Check
  | _, [] => .ok ()
  | earlier, value :: others => do
      refuse (earlier.any fun other => other.name == value.name)
        (.illegal (.repeatedEnumValue value.name enum))
      checkEnumValues enum (earlier ++ [value]) others

/-- The rules on an enum. -/
def EnumDecl.check (edition : Edition) (scope : String) (enum : EnumDecl) : Check :=
  let name := joinName scope enum.name
  match enum.values with
  | [] => .error (.illegal (.emptyEnum name))
  | first :: _ => do
      refuse (edition == .proto3 && first.number != 0) (.illegal (.nonzeroFirstValue name))
      checkEnumValues name [] enum.values

/-- The rules on the fields of an extend block, each together with those before it. -/
def checkExtensionFields (target name : String) : List FieldDecl → List FieldDecl → Check
  | _, [] => .ok ()
  | earlier, field :: others => do
      field.check target
      refuse field.map.isSome (.illegal (.mapExtension field.name))
      refuse (field.label == .required) (.illegal (.requiredExtension field.name))
      refuse (earlier.any fun other => other.tag == field.tag)
        (.duplicateTag name field.tag)
      checkExtensionFields target name (earlier ++ [field]) others

/-- The rules on an extend block. -/
def ExtendDecl.check (scope : String) (extension : ExtendDecl) : Check :=
  checkExtensionFields (joinName scope extension.name) extension.name [] extension.fields

mutual

/-- The rules on a message and on all that it declares. -/
def MessageDecl.check (edition : Edition) (scope : String) : MessageDecl → Check
  | ⟨name, _, fields, messages, enums, extensions, ranges⟩ => do
      let full := joinName scope name
      checkFields edition full [] fields
      ranges.forM (ExtensionRange.check full fields)
      checkMessages edition full messages
      enums.forM (EnumDecl.check edition full)
      extensions.forM (ExtendDecl.check full)

def checkMessages (edition : Edition) (scope : String) : List MessageDecl → Check
  | [] => .ok ()
  | message :: others => do
      message.check edition scope
      checkMessages edition scope others

end

/-- The rules on a file. -/
def FileDecl.check (file : FileDecl) : Check := do
  checkMessages file.edition file.scope file.messages
  file.enums.forM (EnumDecl.check file.edition file.scope)
  file.extensions.forM (ExtendDecl.check file.scope)

end ProtoWire.Proto
