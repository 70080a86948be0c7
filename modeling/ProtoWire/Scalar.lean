import ProtoWire.Wire.WireType

/-!
Contract: the fifteen scalar field types.

Owns:
- their keywords, and the look-up of a keyword;
- their wire types, and which of them can be packed or can hold a length.

Does not own: reading and writing their values.
-/

namespace ProtoWire

/-- A scalar field type. -/
inductive Scalar where
  | int32 | int64 | uint32 | uint64 | sint32 | sint64 | bool
  | fixed32 | sfixed32 | float | fixed64 | sfixed64 | double
  | string | bytes
deriving DecidableEq, Repr

namespace Scalar

def all : List Scalar :=
  [.int32, .int64, .uint32, .uint64, .sint32, .sint64, .bool,
   .fixed32, .sfixed32, .float, .fixed64, .sfixed64, .double, .string, .bytes]

/-- The keyword of a scalar type. -/
def name : Scalar → String
  | .int32 => "int32"
  | .int64 => "int64"
  | .uint32 => "uint32"
  | .uint64 => "uint64"
  | .sint32 => "sint32"
  | .sint64 => "sint64"
  | .bool => "bool"
  | .fixed32 => "fixed32"
  | .sfixed32 => "sfixed32"
  | .float => "float"
  | .fixed64 => "fixed64"
  | .sfixed64 => "sfixed64"
  | .double => "double"
  | .string => "string"
  | .bytes => "bytes"

/-- The scalar type with a keyword. -/
def ofName? (name : String) : Option Scalar :=
  all.find? fun scalar => scalar.name == name

/-- How one value of the type is delimited on the wire. -/
def wireType : Scalar → WireType
  | .int32 | .int64 | .uint32 | .uint64 | .sint32 | .sint64 | .bool => .varint
  | .fixed32 | .sfixed32 | .float => .fixed32
  | .fixed64 | .sfixed64 | .double => .fixed64
  | .string | .bytes => .lengthDelimited

/-- Values that delimit themselves can stand next to each other in one run. -/
def isPackable (scalar : Scalar) : Bool :=
  scalar.wireType != .lengthDelimited

/-- Integers can serve as the length of a frame. -/
def isInteger : Scalar → Bool
  | .bool | .float | .double | .string | .bytes => false
  | _ => true

@[simp] theorem ofName?_name (scalar : Scalar) : ofName? scalar.name = some scalar := by
  cases scalar <;> decide

end Scalar

end ProtoWire
