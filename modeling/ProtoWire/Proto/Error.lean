import ProtoWire.Proto.Token
import ProtoWire.Text.Quoted
import ProtoWire.Wire.Key

/-!
Contract: every cause for which sources are refused, and the message that reports it.

Owns:
- causes in the text of a source, in its declarations, and between declarations;
- the wording of each message.

Does not own: the conditions under which a cause arises.
-/

namespace ProtoWire.Proto

/-- What is wrong at a position of a source text. -/
inductive SyntaxCause where
  /-- No lexeme starts here. -/
  | unknownText (snippet : List Char)
  | expected (what found : String)
  | unexpectedToken (found : String)
  | unexpectedEnd
  | unsupportedSyntax (found : String)
  | repeatedPackage
  | invalidString
  | group
  | invalidFieldNumber (found : String)
  | invalidInteger (found : String)
  /-- There are no tokens at all. -/
  | missingEnd
  /-- The last token does not end the file and could be read for ever. -/
  | endless
deriving DecidableEq, Repr

/-- The text that reports what is wrong. -/
def SyntaxCause.message : SyntaxCause → String
  | .unknownText snippet => "Syntax error: " ++ Quoted.quote (String.ofList snippet)
  | .expected what found => "Expected " ++ what ++ " but found " ++ Quoted.quote found
  | .unexpectedToken found => "Unexpected token " ++ Quoted.quote found
  | .unexpectedEnd => "Unexpected end of file"
  | .unsupportedSyntax found => "Unsupported syntax " ++ found
  | .repeatedPackage => "Multiple package declarations"
  | .invalidString => "Invalid string literal"
  | .group => "Groups are not supported"
  | .invalidFieldNumber found => "Invalid field number " ++ Quoted.quote found
  | .invalidInteger found => "Invalid integer " ++ Quoted.quote found
  | .missingEnd => "Expected end of file"
  | .endless => "The last token does not end the file"

/-- A cause and its position. -/
structure SyntaxError where
  cause : SyntaxCause
  position : Position
deriving DecidableEq, Repr

/-- Why a declaration is not legal, whatever its names refer to. -/
inductive Illegality where
  | tagOutOfRange (field message : String)
  | reservedTag (tag : Nat) (field message : String)
  | labelledMap (field message : String)
  | invalidMapKey (key field message : String)
  | misplacedPacked (field message : String)
  | requiredInProto3 (field message : String)
  | invalidRange (start stop : Nat) (message : String)
  | tagInExtensionRange (field message : String)
  | emptyEnum (enum : String)
  | nonzeroFirstValue (enum : String)
  | repeatedEnumValue (value enum : String)
  | mapExtension (field : String)
  | requiredExtension (field : String)
deriving DecidableEq, Repr

/-- The text that reports why a declaration is not legal. -/
def Illegality.message : Illegality → String
  | .tagOutOfRange field message =>
      "The tag of field " ++ Quoted.quote field ++ " in " ++ Quoted.quote message ++
        s!" must be between {Tag.min} and {Tag.max}"
  | .reservedTag tag field message =>
      s!"The tag {tag} of field " ++ Quoted.quote field ++ " in " ++ Quoted.quote message ++
        " is reserved for the protobuf implementation"
  | .labelledMap field message =>
      "Map field " ++ Quoted.quote field ++ " in " ++ Quoted.quote message ++
        " cannot have a label"
  | .invalidMapKey key field message =>
      "Invalid map key type " ++ Quoted.quote key ++ " for field " ++ Quoted.quote field ++
        " in " ++ Quoted.quote message
  | .misplacedPacked field message =>
      "The packed option is only valid on repeated scalar fields (" ++ Quoted.quote field ++
        " in " ++ Quoted.quote message ++ ")"
  | .requiredInProto3 field message =>
      "Required fields are not allowed in proto3 (field " ++ Quoted.quote field ++ " of " ++
        Quoted.quote message ++ ")"
  | .invalidRange start stop message =>
      s!"Invalid extension range {start} to {stop} in " ++ Quoted.quote message
  | .tagInExtensionRange field message =>
      "The tag of field " ++ Quoted.quote field ++ " in " ++ Quoted.quote message ++
        " lies inside an extension range"
  | .emptyEnum enum => "The enum " ++ Quoted.quote enum ++ " must have at least one value"
  | .nonzeroFirstValue enum =>
      "The first value of enum " ++ Quoted.quote enum ++ " must be zero in proto3"
  | .repeatedEnumValue value enum =>
      "The enum value " ++ Quoted.quote value ++ " is defined twice in " ++ Quoted.quote enum
  | .mapExtension field => "Extension field " ++ Quoted.quote field ++ " cannot be a map"
  | .requiredExtension field =>
      "Extension field " ++ Quoted.quote field ++ " cannot be required"

/-- Why sources are refused. -/
inductive SourceError where
  | syntactic (error : SyntaxError)
  | illegal (cause : Illegality)
  | duplicateType (name : String)
  | duplicateTag (message : String) (tag : Nat)
  | duplicateField (message field : String)
  | unknownFieldType (message field type : String)
  | unknownExtensionTarget (name : String)
  | extensionOutOfRange (message field : String) (tag : Nat)
  | unresolvedImports (paths : List String)
  /-- The schema refuses a definition. -/
  | wire (cause : WireError)
deriving DecidableEq, Repr

/-- The text that reports why sources are refused. -/
def SourceError.message : SourceError → String
  | .syntactic ⟨cause, position⟩ =>
      s!"Parse error at line {position.line}, column {position.column}: " ++ cause.message
  | .illegal cause => "Verifier error: " ++ cause.message
  | .duplicateType name => s!"The type \"{name}\" is defined twice"
  | .duplicateTag message tag => s!"The tag {tag} is used twice in message \"{message}\""
  | .duplicateField message field =>
      s!"The field \"{field}\" is defined twice in message \"{message}\""
  | .unknownFieldType message field type =>
      s!"The type \"{type}\" is not defined for field \"{field}\" in message \"{message}\""
  | .unknownExtensionTarget name => s!"Cannot extend unknown message \"{name}\""
  | .extensionOutOfRange message field tag =>
      s!"Extension field \"{field}\" uses tag {tag}, outside the extension ranges of " ++
        s!"\"{message}\""
  | .unresolvedImports paths => "Unresolved imports: " ++ ", ".intercalate paths
  | .wire cause => cause.message

end ProtoWire.Proto
