import ProtoWire.Wire.WireType

/-!
Contract: every cause for which reading, writing or registering wire data fails,
and the message that reports it.

Owns:
- the causes and their data;
- the wording of each message.

Does not own: the conditions under which a cause arises.
-/

namespace ProtoWire

/-- Why a frame or its configuration is refused. -/
inductive FramingError where
  /-- The length prefix is configured with a type that holds no integers. -/
  | notInteger (typeName : String)
  /-- A length type and a fixed length exclude each other. -/
  | bothConfigured
  /-- One of a length type and a fixed length is needed. -/
  | nothingConfigured
  /-- The prefix on the wire is negative. -/
  | negativeLength (length : Int)
  /-- A fixed frame holds payloads of one length only. -/
  | fixedMismatch (length fixed : Nat)
  /-- The length is above the largest value of the prefix type. -/
  | lengthOverflow (length : Nat) (typeName : String)
  /-- The frame ends behind the end of the bytes. -/
  | frameOverrun (length offset remaining : Nat)
  /-- Only messages are framed. -/
  | notMessage (typeName : String)
deriving DecidableEq, Repr

/-- The text that reports a refused frame. -/
def FramingError.message : FramingError → String
  | .notInteger typeName => s!"\"{typeName}\" is not an integer type"
  | .bothConfigured => "both a length type and a fixed length are configured"
  | .nothingConfigured => "neither a length type nor a fixed length is configured"
  | .negativeLength length => s!"invalid frame length {length}"
  | .fixedMismatch length fixed =>
      s!"payload of {length} bytes does not fit a fixed frame of {fixed} bytes"
  | .lengthOverflow length typeName => s!"frame length {length} does not fit {typeName}"
  | .frameOverrun length offset remaining =>
      s!"frame of {length} bytes at offset {offset} exceeds the {remaining} remaining bytes"
  | .notMessage typeName => s!"\"{typeName}\" is not a message type"

/-- Why reading, writing or registering fails. -/
inductive WireError where
  | unknownType (name : String)
  | duplicateType (name : String)
  | missingRequiredField (message field : String)
  /-- The bytes end inside a number. -/
  | truncatedBuffer (offset : Nat)
  /-- A run of bytes ends behind the end of the bytes. -/
  | outOfBounds (offset length remaining : Nat)
  | invalidFraming (cause : FramingError)
  /-- A base-128 number has more than ten groups. -/
  | malformedVarint (offset : Nat)
  | invalidWireType (number : Nat)
  | invalidTag (tag : Nat)
  | unexpectedWireType (field : String) (expected found : WireType)
  | invalidUtf8
  | typeMismatch (expected found : String)
  | unknownEnumValue (enumName name : String)
  /-- Messages nest deeper than the reader follows them. -/
  | recursionLimitExceeded (limit : Nat)
deriving DecidableEq, Repr

/-- The text that reports a cause. -/
def WireError.message : WireError → String
  | .unknownType name => s!"Unknown type \"{name}\""
  | .duplicateType name => s!"The type \"{name}\" is defined twice"
  | .missingRequiredField message field =>
      s!"Missing required field \"{field}\" in message \"{message}\""
  | .truncatedBuffer offset => s!"Buffer truncated at offset {offset}"
  | .outOfBounds offset length remaining =>
      s!"Read of {length} bytes at offset {offset} exceeds the {remaining} remaining bytes"
  | .invalidFraming cause => "Invalid framing: " ++ cause.message
  | .malformedVarint offset => s!"Malformed varint at offset {offset}"
  | .invalidWireType number => s!"Invalid wire type {number}"
  | .invalidTag tag => s!"Invalid field number {tag}"
  | .unexpectedWireType field expected found =>
      s!"Field \"{field}\" expects wire type " ++ expected.name ++ " but found " ++ found.name
  | .invalidUtf8 => "Invalid UTF-8 in string field"
  | .typeMismatch expected found => s!"Expected a value of type {expected} but found {found}"
  | .unknownEnumValue enumName name =>
      s!"Invalid enum variant \"{name}\" for enum \"{enumName}\""
  | .recursionLimitExceeded limit => s!"Message nesting exceeds the limit of {limit}"

end ProtoWire
