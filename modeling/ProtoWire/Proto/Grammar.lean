import ProtoWire.Proto.Declaration
import ProtoWire.Proto.Lexer
import ProtoWire.Proto.TokenClass
import ProtoWire.Proto.TokenStream

/-!
Contract: the grammar of source files. Keywords are names wherever the tokens behind them
leave no other reading.

Owns:
- the parsers of declarations, options and of the statements that are passed over;
- the file that a list of tokens stands for.

Does not own: the tests on single tokens, or which declarations are legal.
-/

namespace ProtoWire.Proto

namespace Parser

/-! ### Words and symbols -/

/-- Moves on behind a word. -/
def acceptWord (word : String) : Parser Bool :=
  accept (· == word)

/-- Moves on behind a word if the next token passes a test. -/
def acceptWordBefore (word : String) (test : String → Bool) : Parser Bool := do
  if ← sees 1 test then acceptWord word else pure false

/-- Moves on behind a symbol, and insists on it. -/
def expectSymbol (symbol : String) : Parser Unit := do
  let _ ← expect (· == symbol) ("\"" ++ symbol ++ "\"")

def expectIdentifier : Parser Token :=
  expect TokenClass.isIdentifier "identifier"

/-- The end of the file. -/
def atEnd : Parser Bool :=
  sees 0 String.isEmpty

/-! ### Statements that are passed over -/

/-- Passes over a block with all blocks inside of it. -/
def skipBlock : Parser Unit := do
  expectSymbol "\x7b"
  loop
    (fun depth => do
      if ← acceptWord "\x7b" then pure (.again (depth + 1))
      else if ← acceptWord "\x7d" then
        if depth = 0 then pure (.done ()) else pure (.again (depth - 1))
      else if ← atEnd then unexpected
      else
        advance
        pure (.again depth))
    0

/-- Passes over everything up to a semicolon outside of blocks, and the semicolon. -/
def skipStatement : Parser Unit :=
  loop
    (fun _ => do
      if ← acceptWord ";" then pure (.done ())
      else if ← sees 0 (· == "\x7b") then
        skipBlock
        pure (.again ())
      else if ← sees 0 fun text => text.isEmpty || text == "\x7d" then unexpected
      else
        advance
        pure (.again ()))
    ()

/-! ### Options -/

/-- The value of an option: one token, or a whole block. -/
def skipConstant : Parser Unit := do
  if ← sees 0 (· == "\x7b") then skipBlock
  else
    let token ← current
    if token.text.isEmpty || [",", ";", "]", "\x7d"].contains token.text then
      failAt token (.expected "constant" token.text)
    else advance

/-- The name of an option: names and names in parentheses, joined by points. -/
def optionName : Parser String :=
  loop
    (fun name => do
      let part ←
        if ← acceptWord "(" then do
          let token ← expect TokenClass.isTypeName "option name"
          expectSymbol ")"
          pure ("(" ++ token.text ++ ")")
        else do
          let token ← expect TokenClass.isTypeName "option name"
          pure token.text
      if ← sees 0 fun text => text.startsWith "." then pure (.again (name ++ part))
      else pure (.done (name ++ part)))
    ""

/-- A value that says yes or no. -/
def flag : Parser Bool := do
  let token ← current
  let value ←
    match token.text with
    | "true" => pure true
    | "false" => pure false
    | other => failAt token (.expected "true or false" other)
  advance
  pure value

/-- Options in brackets, if there are any, and the value of the last one named `packed`. -/
def fieldOptions : Parser (Option Bool) := do
  if ← acceptWord "[" then
    loop
      (fun packed => do
        let name ← optionName
        expectSymbol "="
        let packed ←
          if name = "packed" then some <$> flag
          else do
            skipConstant
            pure packed
        if ← acceptWord "," then pure (.again packed)
        else
          expectSymbol "]"
          pure (.done packed))
      none
  else pure none

/-! ### Fields -/

/-- A field number or a bound of an extension range. -/
def fieldNumber : Parser Nat := do
  let token ← expect TokenClass.isInteger "integer"
  match TokenClass.unsignedValue? token.text with
  | some number => pure number
  | none => failAt token (.invalidFieldNumber token.text)

/-- The label in front of a field, if there is one. -/
def fieldLabel : Parser FieldLabel := do
  if ← acceptWord "optional" then pure .optional
  else if ← acceptWord "required" then pure .required
  else if ← acceptWord "repeated" then pure .repeated
  else pure .none

/-- The type of a field, and the types of keys and values if it is a map. -/
def fieldType : Parser (String × Option MapType) := do
  if ← acceptWordBefore "map" (· == "<") then
    expectSymbol "<"
    let key ← expect TokenClass.isIdentifier "map key type"
    expectSymbol ","
    let value ← expect TokenClass.isTypeName "map value type"
    expectSymbol ">"
    pure (value.text, some ⟨key.text, value.text⟩)
  else
    let type ← expect TokenClass.isTypeName "type"
    pure (type.text, none)

/-- A field behind its label. -/
def unlabelledField (label : FieldLabel) : Parser FieldDecl := do
  if (← sees 0 (· == "group")) && (← sees 4 (· == "\x7b")) then
    failAt (← current) .group
  let (type, map) ← fieldType
  let name ← expectIdentifier
  expectSymbol "="
  let tag ← fieldNumber
  let packed ← fieldOptions
  expectSymbol ";"
  pure ⟨name.text, name.position, type, tag, label, map, packed⟩

def field : Parser FieldDecl := do
  unlabelledField (← fieldLabel)

/-- Moves on behind the keyword of a group of which at most one field is set. -/
def acceptOneof : Parser Bool := do
  if ← sees 2 (· == "\x7b") then acceptWordBefore "oneof" TokenClass.isIdentifier
  else pure false

/-- The fields of a group of which at most one is set. They carry no label and are
optional. -/
def oneof : Parser (List FieldDecl) := do
  let _ ← expectIdentifier
  expectSymbol "\x7b"
  loop
    (fun fields => do
      if ← acceptWord "\x7d" then pure (.done fields)
      else if ← acceptWord ";" then pure (.again fields)
      else if ← acceptWordBefore "option" (· != "=") then
        skipStatement
        pure (.again fields)
      else if ← atEnd then unexpected
      else
        let member ← unlabelledField .none
        pure (.again (fields ++ [{ member with label := .optional }])))
    []

/-- One range of field numbers: a number, or two numbers of which the second may be the
largest. -/
def extensionRange : Parser ExtensionRange := do
  let start ← fieldNumber
  if ← acceptWord "to" then
    if ← acceptWord "max" then pure ⟨start, Tag.max⟩
    else pure ⟨start, ← fieldNumber⟩
  else pure ⟨start, start⟩

/-- Ranges of field numbers with their options. -/
def extensionRanges : Parser (List ExtensionRange) :=
  loop
    (fun ranges => do
      let range ← extensionRange
      if ← acceptWord "," then pure (.again (ranges ++ [range]))
      else
        let _ ← fieldOptions
        expectSymbol ";"
        pure (.done (ranges ++ [range])))
    []

/-! ### Enums, extend blocks and messages -/

def enumValue : Parser EnumValueDecl := do
  let name ← expectIdentifier
  expectSymbol "="
  let token ← expect TokenClass.isInteger "integer"
  let number ←
    match TokenClass.signedValue? token.text with
    | some number => pure number
    | none => failAt token (.invalidInteger token.text)
  let _ ← fieldOptions
  expectSymbol ";"
  pure ⟨name.text, name.position, number⟩

def enum : Parser EnumDecl := do
  let name ← expectIdentifier
  expectSymbol "\x7b"
  let values ←
    loop
      (fun values => do
        if ← acceptWord "\x7d" then pure (.done values)
        else if ← acceptWord ";" then pure (.again values)
        else if ← acceptWordBefore "option" (· != "=") then
          skipStatement
          pure (.again values)
        else if ← acceptWordBefore "reserved" (· != "=") then
          skipStatement
          pure (.again values)
        else pure (.again (values ++ [← enumValue])))
      []
  pure ⟨name.text, name.position, values⟩

def extendBlock : Parser ExtendDecl := do
  let name ← expect TokenClass.isTypeName "message name"
  expectSymbol "\x7b"
  let fields ←
    loop
      (fun fields => do
        if ← acceptWord "\x7d" then pure (.done fields)
        else if ← acceptWord ";" then pure (.again fields)
        else if ← atEnd then unexpected
        else pure (.again (fields ++ [← field])))
      []
  pure ⟨name.text, name.position, fields⟩

/-- One statement of a message. `nested` reads a message inside of it. -/
def messageStatement
    (nested : Parser MessageDecl)
    (message : MessageDecl) :
    Parser (Round MessageDecl MessageDecl) := do
  if ← acceptWord "\x7d" then pure (.done message)
  else if ← acceptWord ";" then pure (.again message)
  else if ← atEnd then unexpected
  else if ← acceptWordBefore "message" TokenClass.isIdentifier then
    pure (.again { message with messages := message.messages ++ [← nested] })
  else if ← acceptWordBefore "enum" TokenClass.isIdentifier then
    pure (.again { message with enums := message.enums ++ [← enum] })
  else if ← acceptWordBefore "extend" TokenClass.isTypeName then
    pure (.again { message with extensions := message.extensions ++ [← extendBlock] })
  else if ← acceptOneof then
    pure (.again { message with fields := message.fields ++ (← oneof) })
  else if ← acceptWordBefore "extensions" TokenClass.isInteger then
    pure (.again { message with ranges := message.ranges ++ (← extensionRanges) })
  else if ← acceptWordBefore "reserved" (· != "=") then
    skipStatement
    pure (.again message)
  else if ← acceptWordBefore "option" (· != "=") then
    skipStatement
    pure (.again message)
  else pure (.again { message with fields := message.fields ++ [← field] })

/-- A message in which messages nest at most `levels` deep. -/
def messageWithin : Nat → Parser MessageDecl
  | 0 => fun stream => .error ⟨.endless, stream.current.position⟩
  | levels + 1 => do
      let name ← expectIdentifier
      expectSymbol "\x7b"
      loop (messageStatement (messageWithin levels)) ⟨name.text, name.position, [], [], [], [], []⟩

/-- A message. Messages nest no deeper than there are tokens. -/
def message : Parser MessageDecl := fun stream =>
  messageWithin stream.rounds stream

/-! ### Files -/

/-- The statement that names the edition, behind its keyword. -/
def editionStatement : Parser Edition := do
  expectSymbol "="
  let token ← expect TokenClass.isString "string"
  let edition ←
    match TokenClass.stringValue? token.text with
    | some "proto2" => pure .proto2
    | some "proto3" => pure .proto3
    | _ => failAt token (.unsupportedSyntax token.text)
  expectSymbol ";"
  pure edition

/-- The statement that names the package, behind its keyword. -/
def packageStatement (known : Option String) : Parser String := do
  let token ← expect TokenClass.isTypeName "package name"
  if known.isSome then failAt token .repeatedPackage
  expectSymbol ";"
  pure (String.ofList (token.text.toList.dropWhile (· == '.')))

/-- The statement that names another file, behind its keyword. -/
def importStatement : Parser String := do
  let _ ← accept fun text => text == "public" || text == "weak"
  let token ← expect TokenClass.isString "string"
  match TokenClass.stringValue? token.text with
  | some path =>
      expectSymbol ";"
      pure path
  | none => failAt token .invalidString

/-- One statement of a file. -/
def fileStatement (file : FileDecl) : Parser (Round FileDecl FileDecl) := do
  if ← accept String.isEmpty then pure (.done file)
  else if ← acceptWord ";" then pure (.again file)
  else if ← acceptWord "syntax" then
    pure (.again { file with edition := ← editionStatement })
  else if ← acceptWord "package" then
    pure (.again { file with package := some (← packageStatement file.package) })
  else if ← acceptWord "import" then
    pure (.again { file with imports := file.imports ++ [← importStatement] })
  else if ← acceptWord "option" then
    skipStatement
    pure (.again file)
  else if ← acceptWord "message" then
    pure (.again { file with messages := file.messages ++ [← message] })
  else if ← acceptWord "enum" then
    pure (.again { file with enums := file.enums ++ [← enum] })
  else if ← acceptWord "extend" then
    pure (.again { file with extensions := file.extensions ++ [← extendBlock] })
  else if ← acceptWord "service" then
    let _ ← expectIdentifier
    skipBlock
    pure (.again file)
  else unexpected

end Parser

/-- The file that tokens stand for, up to the first token without text. -/
def FileDecl.ofTokens : List Token → Except SyntaxError FileDecl
  | [] => .error ⟨.missingEnd, ⟨0, 0⟩⟩
  | token :: others =>
      (Parser.loop Parser.fileStatement .empty ⟨token, others⟩).map Prod.fst

/-- The file that a source text stands for. -/
def FileDecl.parse (text : String) : Except SyntaxError FileDecl := do
  FileDecl.ofTokens (← Token.scan text)

end ProtoWire.Proto
