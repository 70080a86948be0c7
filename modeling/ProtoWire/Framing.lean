import ProtoWire.Codec.Scalar
import ProtoWire.Number.WordRange

/-!
Contract: frames around messages, whose length is either written in front of the
payload or fixed once and for all.

Owns:
- the two framings and their configuration;
- which lengths fit a framing;
- writing, sizing and reading the length in front of a payload, and reading a frame.

Does not own: what a frame contains.
-/

namespace ProtoWire

/-- How frames are delimited. -/
inductive Framing where
  /-- The length is written in front, as a value of an integer type. -/
  | prefixed (lengthType : Scalar)
  /-- Every frame has this length. -/
  | fixed (length : Nat)
deriving DecidableEq, Repr

namespace Framing

/-- Exactly one of a length type and a fixed length makes a framing. -/
def ofConfig (lengthType : Option String) (length : Option Nat) : Except WireError Framing :=
  match lengthType, length with
  | some name, none =>
      match Scalar.ofName? name with
      | some scalar =>
          if scalar.isInteger then .ok (.prefixed scalar)
          else .error (.invalidFraming (.notInteger name))
      | none => .error (.invalidFraming (.notInteger name))
  | none, some size => .ok (.fixed size)
  | some _, some _ => .error (.invalidFraming .bothConfigured)
  | none, none => .error (.invalidFraming .nothingConfigured)

/-- The largest length that a prefix type can hold. -/
def maxLength : Scalar → Nat
  | .int32 | .sint32 | .sfixed32 => WordRange.maxInt32
  | .uint32 | .fixed32 => WordRange.maxUInt32
  | .int64 | .sint64 | .sfixed64 => WordRange.maxInt64
  | _ => WordRange.maxUInt64

/-- A length that does not fit is refused. -/
def checkLength (framing : Framing) (length : Nat) : Except WireError Unit :=
  match framing with
  | .fixed size =>
      if size = length then .ok () else .error (.invalidFraming (.fixedMismatch length size))
  | .prefixed scalar =>
      if length ≤ maxLength scalar then .ok ()
      else .error (.invalidFraming (.lengthOverflow length scalar.name))

/-- The bytes in front of a payload of a length that fits. -/
def lengthBytes (framing : Framing) (length : Nat) : List UInt8 :=
  match framing with
  | .fixed _ => []
  | .prefixed .sint32 | .prefixed .sint64 => Word.sint64 (Int64.ofNat length)
  | .prefixed .fixed32 | .prefixed .sfixed32 => LittleEndian.encode 4 length
  | .prefixed .fixed64 | .prefixed .sfixed64 => LittleEndian.encode 8 length
  | .prefixed _ => Varint.encode length

/-- The bytes in front of a payload. -/
def encodeLength (framing : Framing) (length : Nat) : Except WireError (List UInt8) := do
  framing.checkLength length
  pure (framing.lengthBytes length)

/-- The count of the bytes in front of a payload. -/
def prefixSize (framing : Framing) (length : Nat) : Nat :=
  match framing with
  | .fixed _ => 0
  | .prefixed scalar =>
      match scalar.wireType with
      | .fixed32 => 4
      | .fixed64 => 8
      | _ =>
          if scalar = .sint32 ∨ scalar = .sint64 then Varint.size (2 * length % UInt64.size)
          else Varint.size length

/-- The length that stands in front of a payload, with its sign. -/
def readSignedLength (scalar : Scalar) : Reader Int :=
  match scalar with
  | .uint32 => (fun number => Int.ofNat number.toNat) <$> Reader.uint32
  | .uint64 => (fun number => Int.ofNat number.toNat) <$> Reader.uint64
  | .int32 => Int32.toInt <$> Reader.int32
  | .int64 => Int64.toInt <$> Reader.int64
  | .sint32 => Int32.toInt <$> Reader.sint32
  | .sint64 => Int64.toInt <$> Reader.sint64
  | .fixed32 => (fun number => Int.ofNat number.toNat) <$> Reader.fixed32
  | .sfixed32 => Int32.toInt <$> Reader.sfixed32
  | .fixed64 => (fun number => Int.ofNat number.toNat) <$> Reader.fixed64
  | .sfixed64 => Int64.toInt <$> Reader.sfixed64
  | other => throw (.invalidFraming (.notInteger other.name))

/-- The length of the next payload. -/
def readLength : Framing → Reader Nat
  | .fixed length => pure length
  | .prefixed scalar => do
      let length ← readSignedLength scalar
      if length < 0 then throw (.invalidFraming (.negativeLength length))
      pure length.toNat

/-- The payload of the next frame. -/
def readPayload (framing : Framing) : Reader (List UInt8) := do
  let start ← get
  let length ← framing.readLength
  let cursor ← get
  if !cursor.has length then
    throw (.invalidFraming (.frameOverrun length start.offset cursor.remaining))
  Reader.bytes length

end Framing

end ProtoWire
