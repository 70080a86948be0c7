import ProtoWire.Wire.Cursor

/-!
Contract: the key in front of every field on the wire, which packs a field number
and a wire type into one base-128 number.

Owns:
- the legal field numbers;
- the written form, the size and the reader of a key;
- passing over the payload of a field that nobody asked for.

Does not own: which fields a message has.
-/

namespace ProtoWire

namespace Tag

/-- The smallest legal field number. -/
def min : Nat := 1

/-- The largest legal field number. -/
def max : Nat := 0x1FFFFFFF

end Tag

namespace Key

/-- The field number above the three bits of the wire type. -/
def number (tag : Nat) (wireType : WireType) : Nat :=
  tag * 8 + wireType.number

def encode (tag : Nat) (wireType : WireType) : List UInt8 :=
  Varint.encode (number tag wireType)

def size (tag : Nat) (wireType : WireType) : Nat :=
  Varint.size (number tag wireType)

theorem length_encode (tag : Nat) (wireType : WireType) :
    (encode tag wireType).length = size tag wireType :=
  Varint.length_encode (number tag wireType)

end Key

namespace Reader

/-- A field number and a wire type. The field number is checked first. -/
def key : Reader (Nat × WireType) := do
  let word ← varint
  let tag := word.toNat / 8
  if tag < Tag.min || Tag.max < tag then throw (.invalidTag tag)
  match WireType.ofNumber? (word.toNat % 8) with
  | some wireType => pure (tag, wireType)
  | none => throw (.invalidWireType (word.toNat % 8))

/-- Passes over one payload of a wire type. -/
def skip : WireType → Reader Unit
  | .varint => (fun _ => ()) <$> varint
  | .fixed64 => (fun _ => ()) <$> bytes 8
  | .lengthDelimited => (fun _ => ()) <$> lengthDelimited
  | .fixed32 => (fun _ => ()) <$> bytes 4

end Reader

end ProtoWire
