import ProtoWire.Scalar
import ProtoWire.Value.Basic
import ProtoWire.Wire.Cursor

/-!
Contract: single scalar values on the wire, without a key. Text and byte strings are
written and read without their length, which belongs to the field around them.

Owns:
- the writer of each kind of word;
- reading, writing and sizing a value of each scalar type.

Does not own: fields, packed runs or messages.
-/

namespace ProtoWire

/-! ### The written forms of words -/

namespace Word

def varint (number : UInt64) : List UInt8 :=
  Varint.encode number.toNat

def uint32 (number : UInt32) : List UInt8 :=
  Varint.encode number.toNat

/-- Negative numbers are extended to 64 bits and so take ten bytes. -/
def int32 (number : Int32) : List UInt8 :=
  varint number.toInt64.toUInt64

def int64 (number : Int64) : List UInt8 :=
  varint number.toUInt64

def sint32 (number : Int32) : List UInt8 :=
  uint32 (Zigzag.encode32 number)

def sint64 (number : Int64) : List UInt8 :=
  varint (Zigzag.encode64 number)

def bool (flag : Bool) : List UInt8 :=
  [if flag then 1 else 0]

def fixed32 (number : UInt32) : List UInt8 :=
  LittleEndian.encode 4 number.toNat

def fixed64 (number : UInt64) : List UInt8 :=
  LittleEndian.encode 8 number.toNat

def sfixed32 (number : Int32) : List UInt8 :=
  fixed32 number.toUInt32

def sfixed64 (number : Int64) : List UInt8 :=
  fixed64 number.toUInt64

/-- Bytes behind their length. -/
def lengthDelimited (run : List UInt8) : List UInt8 :=
  Varint.encode run.length ++ run

/-- The UTF-8 form of a text. -/
def text (content : String) : List UInt8 :=
  content.toUTF8.data.toList

end Word

namespace Scalar

/-- One value. Text and byte strings take all bytes that are left. -/
def read : Scalar → Reader Value
  | .int32 => .int32 <$> Reader.int32
  | .int64 => .int64 <$> Reader.int64
  | .uint32 => .uint32 <$> Reader.uint32
  | .uint64 => .uint64 <$> Reader.uint64
  | .sint32 => .int32 <$> Reader.sint32
  | .sint64 => .int64 <$> Reader.sint64
  | .bool => .bool <$> Reader.bool
  | .fixed32 => .uint32 <$> Reader.fixed32
  | .sfixed32 => .int32 <$> Reader.sfixed32
  | .float => .float <$> Reader.fixed32
  | .fixed64 => .uint64 <$> Reader.fixed64
  | .sfixed64 => .int64 <$> Reader.sfixed64
  | .double => .double <$> Reader.fixed64
  | .string => .string <$> Reader.restAsText
  | .bytes => .bytes <$> Reader.rest

/-- A value of another kind than the type holds. -/
def mismatch (scalar : Scalar) (value : Value) : WireError :=
  .typeMismatch scalar.name value.kindName

/-- The bytes of one value. -/
def encode (scalar : Scalar) (value : Value) : Except WireError (List UInt8) :=
  match scalar, value with
  | .int32, .int32 number => .ok (Word.int32 number)
  | .int64, .int64 number => .ok (Word.int64 number)
  | .uint32, .uint32 number => .ok (Word.uint32 number)
  | .uint64, .uint64 number => .ok (Word.varint number)
  | .sint32, .int32 number => .ok (Word.sint32 number)
  | .sint64, .int64 number => .ok (Word.sint64 number)
  | .bool, .bool flag => .ok (Word.bool flag)
  | .fixed32, .uint32 number => .ok (Word.fixed32 number)
  | .sfixed32, .int32 number => .ok (Word.sfixed32 number)
  | .float, .float bits => .ok (Word.fixed32 bits)
  | .fixed64, .uint64 number => .ok (Word.fixed64 number)
  | .sfixed64, .int64 number => .ok (Word.sfixed64 number)
  | .double, .double bits => .ok (Word.fixed64 bits)
  | .string, .string content => .ok (Word.text content)
  | .bytes, .bytes run => .ok run
  | scalar, value => .error (scalar.mismatch value)

/-- The count of the bytes of one value, without writing them. -/
def size (scalar : Scalar) (value : Value) : Except WireError Nat :=
  match scalar, value with
  | .int32, .int32 number => .ok (Varint.size number.toInt64.toUInt64.toNat)
  | .int64, .int64 number => .ok (Varint.size number.toUInt64.toNat)
  | .uint32, .uint32 number => .ok (Varint.size number.toNat)
  | .uint64, .uint64 number => .ok (Varint.size number.toNat)
  | .sint32, .int32 number => .ok (Varint.size (Zigzag.encode32 number).toNat)
  | .sint64, .int64 number => .ok (Varint.size (Zigzag.encode64 number).toNat)
  | .bool, .bool _ => .ok 1
  | .fixed32, .uint32 _ => .ok 4
  | .sfixed32, .int32 _ => .ok 4
  | .float, .float _ => .ok 4
  | .fixed64, .uint64 _ => .ok 8
  | .sfixed64, .int64 _ => .ok 8
  | .double, .double _ => .ok 8
  | .string, .string content => .ok content.utf8ByteSize
  | .bytes, .bytes run => .ok run.length
  | scalar, value => .error (scalar.mismatch value)

end Scalar

end ProtoWire
