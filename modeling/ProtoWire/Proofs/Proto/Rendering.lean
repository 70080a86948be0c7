import ProtoWire.Proto.Grammar

/-!
Contract: the canonical text of a file, and declarations up to positions.

Owns:
- the words of each declaration, in the order in which the canonical text has them;
- the text of a file, with a blank between words;
- declarations without positions.

Does not own: which declarations the text stands for.
-/

namespace ProtoWire.Proto

/-! ### Words -/

def Edition.name : Edition → String
  | .proto2 => "proto2"
  | .proto3 => "proto3"

def FieldLabel.words : FieldLabel → List String
  | .none => []
  | .optional => ["optional"]
  | .required => ["required"]
  | .repeated => ["repeated"]

/-- The option `packed` in brackets, if it is given. -/
def packedWords : Option Bool → List String
  | none => []
  | some packed => ["[", "packed", "=", if packed then "true" else "false", "]"]

def FieldDecl.typeWords (field : FieldDecl) : List String :=
  match field.map with
  | none => [field.type]
  | some map => ["map", "<", map.key, ",", map.value, ">"]

/-- A field behind its label. -/
def FieldDecl.unlabelledWords (field : FieldDecl) : List String :=
  field.typeWords ++
    field.name :: "=" :: toString field.tag :: (packedWords field.packed ++ [";"])

def FieldDecl.words (field : FieldDecl) : List String :=
  field.label.words ++ field.unlabelledWords

def ExtensionRange.words (range : ExtensionRange) : List String :=
  ["extensions", toString range.start, "to", toString range.stop, ";"]

def EnumValueDecl.words (value : EnumValueDecl) : List String :=
  [value.name, "=", toString value.number.toInt, ";"]

def EnumDecl.words (enum : EnumDecl) : List String :=
  "enum" :: enum.name :: "\x7b" :: (enum.values.flatMap EnumValueDecl.words ++ ["\x7d"])

def ExtendDecl.words (block : ExtendDecl) : List String :=
  "extend" :: block.name :: "\x7b" :: (block.fields.flatMap FieldDecl.words ++ ["\x7d"])

mutual

/-- A message: its fields, its ranges, and what is declared inside of it. -/
def MessageDecl.words : MessageDecl → List String
  | ⟨name, _, fields, messages, enums, extensions, ranges⟩ =>
      "message" :: name :: "\x7b" ::
        (fields.flatMap FieldDecl.words ++ (ranges.flatMap ExtensionRange.words ++
          (wordsOfMessages messages ++ (enums.flatMap EnumDecl.words ++
            (extensions.flatMap ExtendDecl.words ++ ["\x7d"])))))

def wordsOfMessages : List MessageDecl → List String
  | [] => []
  | message :: others => message.words ++ wordsOfMessages others

end

theorem wordsOfMessages_eq (messages : List MessageDecl) :
    wordsOfMessages messages = messages.flatMap MessageDecl.words := by
  induction messages with
  | nil => rfl
  | cons message others inductionHypothesis =>
      rw [wordsOfMessages, inductionHypothesis, List.flatMap_cons]

theorem MessageDecl.words_eq (message : MessageDecl) :
    message.words = "message" :: message.name :: "\x7b" ::
      (message.fields.flatMap FieldDecl.words ++ (message.ranges.flatMap ExtensionRange.words ++
        (message.messages.flatMap MessageDecl.words ++ (message.enums.flatMap EnumDecl.words ++
          (message.extensions.flatMap ExtendDecl.words ++ ["\x7d"]))))) := by
  obtain ⟨name, position, fields, messages, enums, extensions, ranges⟩ := message
  rw [MessageDecl.words, wordsOfMessages_eq]

def packageWords : Option String → List String
  | none => []
  | some package => ["package", package, ";"]

def importWords (path : String) : List String :=
  ["import", Quoted.quote path, ";"]

def FileDecl.words (file : FileDecl) : List String :=
  "syntax" :: "=" :: Quoted.quote file.edition.name :: ";" ::
    (packageWords file.package ++ (file.imports.flatMap importWords ++
      (file.messages.flatMap MessageDecl.words ++ (file.enums.flatMap EnumDecl.words ++
        file.extensions.flatMap ExtendDecl.words))))

/-- The canonical text of a file. -/
def FileDecl.render (file : FileDecl) : String :=
  " ".intercalate file.words

/-! ### Positions -/

def FieldDecl.unplaced (field : FieldDecl) : FieldDecl :=
  { field with position := .first }

def EnumValueDecl.unplaced (value : EnumValueDecl) : EnumValueDecl :=
  { value with position := .first }

def EnumDecl.unplaced (enum : EnumDecl) : EnumDecl :=
  ⟨enum.name, .first, enum.values.map EnumValueDecl.unplaced⟩

def ExtendDecl.unplaced (block : ExtendDecl) : ExtendDecl :=
  ⟨block.name, .first, block.fields.map FieldDecl.unplaced⟩

mutual

/-- A message in which every position is the first one. -/
def MessageDecl.unplaced : MessageDecl → MessageDecl
  | ⟨name, _, fields, messages, enums, extensions, ranges⟩ =>
      ⟨name, .first, fields.map FieldDecl.unplaced, unplacedMessages messages,
        enums.map EnumDecl.unplaced, extensions.map ExtendDecl.unplaced, ranges⟩

def unplacedMessages : List MessageDecl → List MessageDecl
  | [] => []
  | message :: others => message.unplaced :: unplacedMessages others

end

theorem unplacedMessages_eq (messages : List MessageDecl) :
    unplacedMessages messages = messages.map MessageDecl.unplaced := by
  induction messages with
  | nil => rfl
  | cons message others inductionHypothesis =>
      rw [unplacedMessages, inductionHypothesis, List.map_cons]

theorem MessageDecl.unplaced_eq (message : MessageDecl) :
    message.unplaced =
      ⟨message.name, .first, message.fields.map FieldDecl.unplaced,
        message.messages.map MessageDecl.unplaced, message.enums.map EnumDecl.unplaced,
        message.extensions.map ExtendDecl.unplaced, message.ranges⟩ := by
  obtain ⟨name, position, fields, messages, enums, extensions, ranges⟩ := message
  rw [MessageDecl.unplaced, unplacedMessages_eq]

/-- A file in which every position is the first one. -/
def FileDecl.unplaced (file : FileDecl) : FileDecl :=
  { file with
    messages := file.messages.map MessageDecl.unplaced
    enums := file.enums.map EnumDecl.unplaced
    extensions := file.extensions.map ExtendDecl.unplaced }

end ProtoWire.Proto
