/-!
Contract: the largest numbers of the machine words.

Owns:
- the bounds of signed and unsigned words of 32 and 64 bits.

Does not own: what is refused for being out of bounds.
-/

namespace ProtoWire.WordRange

/-- The largest signed number of 32 bits. -/
def maxInt32 : Nat := 0x7FFFFFFF

/-- The largest number of 32 bits. -/
def maxUInt32 : Nat := 0xFFFFFFFF

/-- The largest signed number of 64 bits. -/
def maxInt64 : Nat := 0x7FFFFFFFFFFFFFFF

/-- The largest number of 64 bits. -/
def maxUInt64 : Nat := 0xFFFFFFFFFFFFFFFF

end ProtoWire.WordRange
