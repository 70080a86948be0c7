import ProtoWire.Proto.Token

/-!
Contract: what a source file declares, before any name in it is resolved.

Owns:
- files, messages, fields, enums, extension ranges and extend blocks;
- full names and the messages of a file with their full names.

Does not own: which declarations are legal, or what they compile to.
-/

namespace ProtoWire.Proto

/-- The edition of the language that a file is written in. -/
inductive Edition where
  | proto2
  | proto3
deriving DecidableEq, Repr

/-- The label in front of a field. -/
inductive FieldLabel where
  | none
  | optional
  | required
  | repeated
deriving DecidableEq, Repr

/-- The types of the keys and the values of a map. -/
structure MapType where
  key : String
  value : String
deriving DecidableEq, Repr

/-- A field. The type of a map field is the type of its values; `packed` is the value of the
option of that name, if it is given. -/
structure FieldDecl where
  name : String
  position : Position
  type : String
  tag : Nat
  label : FieldLabel
  map : Option MapType
  packed : Option Bool
deriving DecidableEq, Repr

/-- A named number of an enum. -/
structure EnumValueDecl where
  name : String
  position : Position
  number : Int32
deriving DecidableEq, Repr

structure EnumDecl where
  name : String
  position : Position
  values : List EnumValueDecl
deriving DecidableEq, Repr

/-- Field numbers that extensions may take, both ends included. -/
structure ExtensionRange where
  start : Nat
  stop : Nat
deriving DecidableEq, Repr

/-- Fields that are added to the message with a name. -/
structure ExtendDecl where
  name : String
  position : Position
  fields : List FieldDecl
deriving DecidableEq, Repr

/-- A message and what is declared inside of it. -/
structure MessageDecl where
  name : String
  position : Position
  fields : List FieldDecl
  messages : List MessageDecl
  enums : List EnumDecl
  extensions : List ExtendDecl
  ranges : List ExtensionRange
deriving Repr

/-- A source file. -/
structure FileDecl where
  edition : Edition
  package : Option String
  imports : List String
  messages : List MessageDecl
  enums : List EnumDecl
  extensions : List ExtendDecl
deriving Repr

/-- A file that declares nothing. -/
def FileDecl.empty : FileDecl :=
  ⟨.proto2, none, [], [], [], []⟩

/-- The scope of the top level of a file. -/
def FileDecl.scope (file : FileDecl) : String :=
  file.package.getD ""

/-- A name inside of a scope. -/
def joinName (scope name : String) : String :=
  if scope.isEmpty then name else scope ++ "." ++ name

/-- The name of the message that holds one entry of a map field. -/
def mapEntryName (message field : String) : String :=
  message ++ "_" ++ field ++ "_entry"

mutual

/-- A message and all messages inside of it with their full names, outer ones first. -/
def MessageDecl.withNames (scope : String) : MessageDecl → List (String × MessageDecl)
  | ⟨name, position, fields, messages, enums, extensions, ranges⟩ =>
      (joinName scope name, ⟨name, position, fields, messages, enums, extensions, ranges⟩) ::
        messagesWithNames (joinName scope name) messages

def messagesWithNames (scope : String) : List MessageDecl → List (String × MessageDecl)
  | [] => []
  | message :: others => message.withNames scope ++ messagesWithNames scope others

end

/-- All messages of a file with their full names, outer ones first. -/
def FileDecl.messagesWithNames (file : FileDecl) : List (String × MessageDecl) :=
  Proto.messagesWithNames file.scope file.messages

end ProtoWire.Proto
