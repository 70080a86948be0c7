import ProtoWire.Wire.Error
import ProtoWire.Wire.LittleEndian
import ProtoWire.Wire.Varint
import ProtoWire.Wire.Zigzag

/-!
Contract: reading wire data from a position in a run of bytes. No reader looks
behind the last byte, and a failing reader leaves the cursor where it stopped.

Owns:
- the cursor and the reader type;
- the readers of bytes, base-128 numbers, fixed-width numbers and text;
- the repetition of a reader up to the end of the bytes.

Does not own: field keys, scalar types or messages.
-/

namespace ProtoWire

/-- A position: how many bytes were read and the bytes that follow. -/
structure Cursor where
  offset : Nat
  rest : List UInt8
deriving DecidableEq, Repr

namespace Cursor

/-- The start of some bytes. -/
def ofBytes (bytes : List UInt8) : Cursor :=
  ⟨0, bytes⟩

def remaining (cursor : Cursor) : Nat :=
  cursor.rest.length

def isAtEnd (cursor : Cursor) : Bool :=
  cursor.rest.isEmpty

/-- Whether `count` bytes follow. No more than these are looked at. -/
def has (cursor : Cursor) (count : Nat) : Bool :=
  (cursor.rest.take count).length == count

theorem has_iff (cursor : Cursor) (count : Nat) :
    cursor.has count = true ↔ count ≤ cursor.remaining := by
  simp only [has, remaining, beq_iff_eq, List.length_take]
  omega

end Cursor

/-- A reader moves a cursor forward; on an error the cursor stays where reading stopped. -/
abbrev Reader (α : Type) : Type :=
  EStateM WireError Cursor α

namespace Reader

/-- One byte. -/
def byte : Reader UInt8 := fun cursor =>
  match cursor.rest with
  | [] => .error (.truncatedBuffer cursor.offset) cursor
  | value :: rest => .ok value ⟨cursor.offset + 1, rest⟩

/-- Exactly `count` bytes. -/
def bytes (count : Nat) : Reader (List UInt8) := fun cursor =>
  if cursor.has count then
    .ok (cursor.rest.take count) ⟨cursor.offset + count, cursor.rest.drop count⟩
  else .error (.outOfBounds cursor.offset count cursor.remaining) cursor

/-- All bytes that are left. -/
def rest : Reader (List UInt8) := fun cursor =>
  .ok cursor.rest ⟨cursor.offset + cursor.remaining, []⟩

/-- A base-128 number of at most `groups` groups, modulo `2 ^ 64`. -/
def varintGroups (start : Nat) : Nat → Reader UInt64
  | 0 => throw (.malformedVarint start)
  | groups + 1 => do
      let group ← byte
      if group < 0x80 then pure group.toUInt64
      else
        let higher ← varintGroups start groups
        pure ((group - 0x80).toUInt64 + 128 * higher)

/-- A base-128 number of at most ten groups, modulo `2 ^ 64`. -/
def varint : Reader UInt64 := fun cursor =>
  varintGroups cursor.offset Varint.maxGroups cursor

/-- The low 32 bits of a base-128 number. -/
def uint32 : Reader UInt32 :=
  UInt64.toUInt32 <$> varint

def uint64 : Reader UInt64 :=
  varint

/-- The low 32 bits of a base-128 number, signed. -/
def int32 : Reader Int32 :=
  (fun word => word.toUInt32.toInt32) <$> varint

def int64 : Reader Int64 :=
  UInt64.toInt64 <$> varint

def sint32 : Reader Int32 :=
  (fun word => Zigzag.decode32 word.toUInt32) <$> varint

def sint64 : Reader Int64 :=
  Zigzag.decode64 <$> varint

/-- Every number but zero is true. -/
def bool : Reader Bool :=
  (fun word => word != 0) <$> varint

def fixed32 : Reader UInt32 :=
  (fun run => UInt32.ofNat (LittleEndian.decode run)) <$> bytes 4

def fixed64 : Reader UInt64 :=
  (fun run => UInt64.ofNat (LittleEndian.decode run)) <$> bytes 8

def sfixed32 : Reader Int32 :=
  UInt32.toInt32 <$> fixed32

def sfixed64 : Reader Int64 :=
  UInt64.toInt64 <$> fixed64

/-- A base-128 length and that many bytes. -/
def lengthDelimited : Reader (List UInt8) := do
  let length ← varint
  bytes length.toNat

/-- The text that some bytes encode, if they are valid UTF-8. -/
def decodeText? (run : List UInt8) : Option String :=
  String.fromUTF8? run.toByteArray

/-- All bytes that are left, as UTF-8 text. -/
def restAsText : Reader String := do
  let run ← rest
  match decodeText? run with
  | some text => pure text
  | none => throw .invalidUtf8

/-- Reads a bounded region from its start; what the reader leaves of it is dropped. -/
def within (region : List UInt8) (reader : Reader α) : Reader α := fun cursor =>
  match reader (Cursor.ofBytes region) with
  | .ok value _ => .ok value cursor
  | .error cause _ => .error cause cursor

/-- Repeats a reader while bytes are left, at most `count` times. -/
def repeatAtMost (reader : Reader α) : Nat → Reader (List α)
  | 0 => pure []
  | count + 1 => fun cursor =>
      if cursor.isAtEnd then .ok [] cursor
      else
        (do
          let first ← reader
          let others ← repeatAtMost reader count
          pure (first :: others)) cursor

/-- Repeats a reader until no bytes are left. The count of bytes bounds the count of
items, since every reader this is used with takes at least one byte. -/
def many (reader : Reader α) : Reader (List α) := fun cursor =>
  repeatAtMost reader cursor.remaining cursor

end Reader

end ProtoWire
