/-!
Contract: the four ways in which the payload after a field key is delimited.

Owns:
- the wire types and their numbers on the wire;
- the names by which messages mention them.

Does not own: the key that carries a wire type, or the payloads themselves.
-/

namespace ProtoWire

/-- How the payload that follows a field key is delimited. -/
inductive WireType where
  /-- One base-128 number. -/
  | varint
  /-- Exactly eight bytes. -/
  | fixed64
  /-- A base-128 length and that many bytes. -/
  | lengthDelimited
  /-- Exactly four bytes. -/
  | fixed32
deriving DecidableEq, Repr

namespace WireType

/-- The three-bit number that a key carries. -/
def number : WireType → Nat
  | .varint => 0
  | .fixed64 => 1
  | .lengthDelimited => 2
  | .fixed32 => 5

/-- Groups (3 and 4) and the unassigned numbers have no wire type. -/
def ofNumber? : Nat → Option WireType
  | 0 => some .varint
  | 1 => some .fixed64
  | 2 => some .lengthDelimited
  | 5 => some .fixed32
  | _ => none

/-- The name used in messages. -/
def name : WireType → String
  | .varint => "Varint"
  | .fixed64 => "Fixed64"
  | .lengthDelimited => "LengthDelimited"
  | .fixed32 => "Fixed32"

@[simp] theorem ofNumber?_number (wireType : WireType) :
    ofNumber? wireType.number = some wireType := by
  cases wireType <;> rfl

theorem number_lt_eight (wireType : WireType) : wireType.number < 8 := by
  cases wireType <;> decide

end WireType

end ProtoWire
