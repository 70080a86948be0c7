import ProtoWire.Codec.Decode
import ProtoWire.Proto.Options
import ProtoWire.Schema.Description
import ProtoWire.Value.Text

/-!
Contract: the commands that check sources, describe their schema and decode data, as
functions of the words of a command line and the contents of files.

Owns:
- the options of each command and the forms in which they are written;
- what each command reads, prints and refuses.

Does not own: reading files and printing.
-/

namespace ProtoWire.CommandLine

/-! ### Options -/

inductive OptionName where
  | input | allowImports | config | type | data | lengthType | frameLength | verbose
deriving DecidableEq, Repr

/-- How many values follow an option. -/
inductive Arity where
  | none
  | one
  | several
deriving DecidableEq, Repr

namespace OptionName

def all : List OptionName :=
  [.input, .allowImports, .config, .type, .data, .lengthType, .frameLength, .verbose]

/-- The name behind two dashes. -/
def long : OptionName → String
  | .input => "input"
  | .allowImports => "allow-imports"
  | .config => "config"
  | .type => "type"
  | .data => "data"
  | .lengthType => "length-type"
  | .frameLength => "frame-length"
  | .verbose => "verbose"

/-- The letter behind one dash. -/
def short? : OptionName → Option Char
  | .input => some 'i'
  | .type => some 't'
  | .data => some 'd'
  | .verbose => some 'v'
  | _ => none

def arity : OptionName → Arity
  | .allowImports | .verbose => .none
  | .input => .several
  | _ => .one

/-- Paths are never empty. -/
def admits (option : OptionName) (value : String) : Bool :=
  match option with
  | .input | .config | .data => !value.isEmpty
  | _ => true

end OptionName

/-- An option on the command line with its values. -/
structure Occurrence where
  option : OptionName
  values : List String
deriving DecidableEq, Repr

/-- A word that can be the value of the option before it. -/
def isValue (word : String) : Bool :=
  !word.startsWith "-" || word == "-"

/-- What a word is that starts with a dash. -/
inductive Word where
  /-- Options without values, and the values attached to the last of them. -/
  | options (names : List OptionName) (attached : Option String)
  /-- Two dashes: no options follow. -/
  | ending
  | unknown
deriving DecidableEq, Repr

/-- Letters behind one dash. The letter of an option with values takes the rest of the word,
from which an equals sign is dropped. -/
def letters (names : List OptionName) : List Char → Word
  | [] => .options names none
  | letter :: rest =>
      match OptionName.all.find? fun option => option.short? == some letter with
      | none => .unknown
      | some option =>
          if option.arity = .none then letters (names ++ [option]) rest
          else
            match rest with
            | [] => .options (names ++ [option]) none
            | '=' :: value => .options (names ++ [option]) (some (String.ofList value))
            | value => .options (names ++ [option]) (some (String.ofList value))

/-- What a word stands for. -/
def classify (word : String) : Word :=
  match word.toList with
  | ['-', '-'] => .ending
  | '-' :: '-' :: rest =>
      let name := String.ofList (rest.takeWhile (· != '='))
      match OptionName.all.find? fun option => option.long == name with
      | none => .unknown
      | some option =>
          match rest.dropWhile (· != '=') with
          | [] => .options [option] none
          | _ :: value => .options [option] (some (String.ofList value))
  | '-' :: first :: rest => letters [] (first :: rest)
  | _ => .unknown

/-- The options of a command that admits some of them. Nothing is found where a word is no
option or a value is missing; `count` bounds the words. -/
def occurrencesWithin (admitted : List OptionName) :
    Nat → List String → Option (List Occurrence)
  | _, [] => some []
  | 0, _ => none
  | count + 1, word :: words =>
      match classify word with
      | .unknown => none
      | .ending => if words.isEmpty then some [] else none
      | .options names attached => do
          let last ← names.getLast?
          let flags := names.dropLast.map fun option => Occurrence.mk option []
          if !names.all admitted.contains then none
          else
            match last.arity, attached with
            | .none, some _ => none
            | .none, none => do
                let others ← occurrencesWithin admitted count words
                pure (flags ++ ⟨last, []⟩ :: others)
            | _, some value => do
                let others ← occurrencesWithin admitted count words
                pure (flags ++ ⟨last, [value]⟩ :: others)
            | .one, none =>
                match words with
                | [] => none
                | value :: behind =>
                    if isValue value then do
                      let others ← occurrencesWithin admitted count behind
                      pure (flags ++ ⟨last, [value]⟩ :: others)
                    else none
            | .several, none =>
                let values := words.takeWhile isValue
                if values.isEmpty then none
                else do
                  let others ← occurrencesWithin admitted count (words.dropWhile isValue)
                  pure (flags ++ ⟨last, values⟩ :: others)

/-- Only an option with several values is given more than once, and every value is
admissible. -/
def areConsistent (occurrences : List Occurrence) : Bool :=
  occurrences.all fun occurrence =>
    occurrence.values.all occurrence.option.admits &&
      (occurrence.option.arity == .several ||
        (occurrences.filter fun other => other.option == occurrence.option).length == 1)

/-- All values of an option. -/
def valuesOf (occurrences : List Occurrence) (option : OptionName) : List String :=
  (occurrences.filter fun occurrence => occurrence.option == option).flatMap
    Occurrence.values

/-! ### Commands -/

/-- What a command does with the schema. -/
inductive Action where
  | check
  | describe
  | decode (typeName dataPath : String) (lengthType : Option String) (frameLength : Option Nat)
deriving DecidableEq, Repr

/-- A command: the sources, the options of their compilation, and the action. -/
structure Command where
  inputs : List String
  allowImports : Bool
  config : Option String
  action : Action
deriving DecidableEq, Repr

/-- A count of at most 64 bits, perhaps behind a plus sign. -/
def count? (text : String) : Option Nat := do
  let digits :=
    match text.toList with
    | '+' :: rest => rest
    | characters => characters
  let value ← Proto.TokenClass.decimalValue? digits
  if value ≤ WordRange.maxUInt64 then some value else none

/-- The options that check and describe admit. -/
def sourceOptions : List OptionName :=
  [.input, .allowImports, .config, .verbose]

/-- The decoding that some options ask for. A length type and a frame length exclude each
other. -/
def decodeAction? (occurrences : List Occurrence) : Option Action := do
  let typeName ← (valuesOf occurrences .type).head?
  let dataPath ← (valuesOf occurrences .data).head?
  let lengthType := (valuesOf occurrences .lengthType).head?
  match (valuesOf occurrences .frameLength).head? with
  | none => some (.decode typeName dataPath lengthType none)
  | some text => do
      let length ← count? text
      if lengthType.isSome then none else some (.decode typeName dataPath none (some length))

/-- The command with a name and the words behind it. -/
def ofWords? (name : String) (words : List String) : Option Command := do
  let admitted ←
    match name with
    | "check" => some sourceOptions
    | "describe" => some sourceOptions
    | "decode" => some OptionName.all
    | _ => none
  let occurrences ← occurrencesWithin admitted words.length words
  if !areConsistent occurrences || (valuesOf occurrences .input).isEmpty then none
  else
    let action ←
      match name with
      | "check" => some Action.check
      | "describe" => some Action.describe
      | _ => decodeAction? occurrences
    some
      { inputs := valuesOf occurrences .input
        allowImports := occurrences.any fun occurrence => occurrence.option == .allowImports
        config := (valuesOf occurrences .config).head?
        action := action }

/-- The command that the words of a command line stand for. In front of the name of the
command, only the option that asks for more messages is admitted, once. -/
def parse? : List String → Option Command
  | [] => none
  | word :: words =>
      if classify word = .options [.verbose] none then
        match words with
        | name :: others => ofWords? name others
        | [] => none
      else ofWords? word words

/-! ### Running -/

/-- Why a command fails. -/
inductive Failure where
  /-- A file is missing or is no text. -/
  | unreadable (path : String)
  /-- A file holds no options. -/
  | invalidOptions (path : String)
  | source (cause : Proto.SourceError)
deriving DecidableEq, Repr

/-- The text that reports why a command fails. -/
def Failure.message : Failure → String
  | .unreadable path => s!"I/O error: cannot read {path}"
  | .invalidOptions path => s!"I/O error: no compile options in {path}"
  | .source cause => cause.message

/-- What a command prints as its result and beside it. -/
structure Printed where
  result : String
  remark : String
deriving DecidableEq, Repr

/-- The contents of files by their paths. -/
abbrev Files : Type :=
  String → Option (List UInt8)

def readBytes (files : Files) (path : String) : Except Failure (List UInt8) :=
  match files path with
  | some content => .ok content
  | none => .error (.unreadable path)

def readText (files : Files) (path : String) : Except Failure String := do
  match Reader.decodeText? (← readBytes files path) with
  | some text => pure text
  | none => throw (.unreadable path)

/-- The options in a file. -/
def readOptions (files : Files) (path : String) : Except Failure Proto.CompileOptions := do
  match Proto.CompileOptions.ofJson? (← readText files path) with
  | some options => pure options
  | none => throw (.invalidOptions path)

/-- The schema of the sources of a command. -/
def loadSchema (files : Files) (command : Command) : Except Failure Schema := do
  let configured ←
    match command.config with
    | some path => readOptions files path
    | none => pure Proto.CompileOptions.default
  let options := Proto.CompileOptions.mk (configured.allowImports || command.allowImports)
  let sources ← command.inputs.mapM (readText files)
  (Proto.compileSources options sources).mapError .source

/-- The line that reports a definition. -/
def definitionLine (definition : Definition) : String :=
  definition.summary ++ "\n"

/-- Decodes data as a type, in a frame if a length is configured. The frame is registered
under the name of the type and a suffix. -/
def decodeData
    (schema : Schema)
    (typeName : String)
    (lengthType : Option String)
    (frameLength : Option Nat)
    (content : List UInt8) :
    Except WireError (Value × Nat) :=
  if lengthType.isSome || frameLength.isSome then do
    let framed := typeName ++ ".frame"
    let extended ← schema.registerFramed framed typeName lengthType frameLength
    extended.decode framed content
  else schema.decode typeName content

/-- What a command prints. -/
def run (files : Files) (command : Command) : Except Failure Printed := do
  let schema ← loadSchema files command
  match command.action with
  | .check => pure ⟨String.join (schema.definitions.map definitionLine), ""⟩
  | .describe => pure ⟨schema.describe ++ "\n", ""⟩
  | .decode typeName dataPath lengthType frameLength => do
      let content ← readBytes files dataPath
      let (value, consumed) ←
        (decodeData schema typeName lengthType frameLength content).mapError
          fun cause => .source (.wire cause)
      let remark :=
        if consumed < content.length then
          s!"{content.length - consumed} trailing bytes after the frame\n"
        else ""
      pure ⟨value.text ++ "\n", remark⟩

/-- The paths that a command reads. -/
def Command.paths (command : Command) : List String :=
  let dataPaths :=
    match command.action with
    | .decode _ dataPath _ _ => [dataPath]
    | _ => []
  command.config.toList ++ command.inputs ++ dataPaths

end ProtoWire.CommandLine
