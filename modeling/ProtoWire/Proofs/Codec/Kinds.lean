import ProtoWire.Proofs.Codec.Scalar
import ProtoWire.Proofs.Wire.Emission
import ProtoWire.Proofs.Wire.Following

/-!
Contract: a scalar type writes the values of its own kind and no others. What it writes is read
back as the same value, and is what passing over its wire type takes.

Owns:
- the kind of value that each scalar type holds;
- writing a value behind a buffer, and when this is refused;
- the agreement of writing, sizing, reading and passing over a value.

Does not own: keys and lengths around scalar values.
-/

namespace ProtoWire

/-- Passing over a payload takes what a reader of the payload takes. -/
theorem Reader.Takes.reads
    {α : Type}
    {reader : Reader α}
    {wireType : WireType}
    {bytes : List UInt8}
    {value : α}
    (takes : reader.Takes wireType)
    (reads : reader.Reads bytes value) :
    (skip wireType).Reads bytes () :=
  fun offset rest => takes _ _ _ (reads offset rest)

namespace Scalar

/-- The kind of the values of a scalar type. Several types differ only in how they write their
numbers. -/
def kindName : Scalar → String
  | .int32 | .sint32 | .sfixed32 => "int32"
  | .int64 | .sint64 | .sfixed64 => "int64"
  | .uint32 | .fixed32 => "uint32"
  | .uint64 | .fixed64 => "uint64"
  | .bool => "bool"
  | .float => "float"
  | .double => "double"
  | .string => "string"
  | .bytes => "bytes"

/-- A buffer behind one value, and the outcome of writing it. -/
def write (scalar : Scalar) (value : Value) (buffer : List UInt8) :
    List UInt8 × Except WireError Unit :=
  (Emission.ofExcept (scalar.encode value)).appendTo buffer

/-- The kind alone decides whether a value is written. -/
theorem encode_cases (scalar : Scalar) (value : Value) :
    (value.kindName = scalar.kindName ∧ ∃ bytes, scalar.encode value = .ok bytes) ∨
      (value.kindName ≠ scalar.kindName ∧
        scalar.encode value = .error (scalar.mismatch value)) := by
  cases scalar <;> cases value <;>
    first
    | exact .inl ⟨rfl, _, rfl⟩
    | exact .inr ⟨ne_of_beq_false rfl, rfl⟩

variable {scalar : Scalar} {value : Value}

/-- What is written for a value stands for it, whatever is in front of it. -/
structure Carries (scalar : Scalar) (value : Value) (written : List UInt8) : Prop where
  /-- The bytes are put behind a buffer. -/
  writes : ∀ buffer, scalar.write value buffer = (buffer ++ written, .ok ())
  /-- The size that is computed beforehand counts the bytes. -/
  size : scalar.size value = .ok written.length
  /-- The value is read back from the bytes on their own. -/
  exhausts : scalar.read.Exhausts written value
  /-- A value that delimits itself is read back from the bytes, whatever follows them. -/
  reads : scalar.wireType ≠ .lengthDelimited → scalar.read.Reads written value
  /-- Passing over a value that delimits itself takes the same bytes. -/
  skips : scalar.wireType ≠ .lengthDelimited → (Reader.skip scalar.wireType).Reads written ()

/-- A value is neither written nor counted, and the buffer stays as it was. -/
structure Refuses (scalar : Scalar) (value : Value) (cause : WireError) : Prop where
  writes : ∀ buffer, scalar.write value buffer = (buffer, .error cause)
  size : scalar.size value = .error cause

theorem carries_of_encode
    {bytes : List UInt8}
    (encoded : scalar.encode value = .ok bytes) :
    scalar.Carries value bytes where
  writes := by
    intro buffer
    rw [write, encoded]
    rfl
  size := by
    rw [← length_encode, encoded]
    rfl
  exhausts := exhausts_of_encode encoded
  reads := reads_of_encode encoded
  skips := fun delimited => (takes_read delimited).reads (reads_of_encode encoded delimited)

theorem refuses_of_encode
    {cause : WireError}
    (refused : scalar.encode value = .error cause) :
    scalar.Refuses value cause where
  writes := by
    intro buffer
    rw [write, refused]
    exact congrArg (·, Except.error cause) (List.append_nil buffer)
  size := by
    rw [← length_encode, refused]
    rfl

/-- A value is carried by a scalar type exactly if it is of the type's kind, and refused with the
two kinds otherwise. -/
theorem carries_iff_kind (scalar : Scalar) (value : Value) :
    ((∃ written, scalar.Carries value written) ↔ value.kindName = scalar.kindName) ∧
      (scalar.Refuses value (.typeMismatch scalar.name value.kindName) ↔
        value.kindName ≠ scalar.kindName) := by
  rcases encode_cases scalar value with ⟨kind, bytes, encoded⟩ | ⟨kind, refused⟩
  · have carries := carries_of_encode encoded
    refine ⟨iff_of_true ⟨bytes, carries⟩ kind, iff_of_false ?_ fun different => different kind⟩
    intro refuses
    cases carries.size.symm.trans refuses.size
  · have refuses := refuses_of_encode refused
    refine ⟨iff_of_false ?_ kind, iff_of_true refuses kind⟩
    rintro ⟨written, carries⟩
    cases carries.size.symm.trans refuses.size

/-- What is not a number keeps its payload. -/
example : float.write (.float 0x7fc00001) [5] = ([5, 0x01, 0x00, 0xc0, 0x7f], .ok ()) := rfl

end Scalar

end ProtoWire
