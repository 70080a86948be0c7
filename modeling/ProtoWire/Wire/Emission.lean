import ProtoWire.Wire.Error

/-!
Contract: the outcome of writing, which keeps the bytes that were written before a
failure.

Owns:
- emissions, their sequence and its laws;
- the view of an emission as bytes or an error.

Does not own: what any type writes.
-/

namespace ProtoWire

/-- The bytes that were written, and the cause that ended the writing early, if any. -/
structure Emission where
  bytes : List UInt8
  failure : Option WireError
deriving DecidableEq, Repr

namespace Emission

def ofBytes (bytes : List UInt8) : Emission :=
  ⟨bytes, none⟩

def empty : Emission :=
  ofBytes []

/-- Nothing is written. -/
def fail (cause : WireError) : Emission :=
  ⟨[], some cause⟩

def ofExcept : Except WireError (List UInt8) → Emission
  | .ok bytes => ofBytes bytes
  | .error cause => fail cause

/-- Nothing is written behind a failure. -/
def append (first second : Emission) : Emission :=
  match first.failure with
  | none => ⟨first.bytes ++ second.bytes, second.failure⟩
  | some _ => first

instance : Append Emission :=
  ⟨append⟩

/-- Emissions in sequence, up to the first failure. -/
def concat (emissions : List Emission) : Emission :=
  emissions.foldr append empty

def toExcept (emission : Emission) : Except WireError (List UInt8) :=
  match emission.failure with
  | none => .ok emission.bytes
  | some cause => .error cause

@[simp] theorem append_ofBytes (bytes : List UInt8) (second : Emission) :
    ofBytes bytes ++ second = ⟨bytes ++ second.bytes, second.failure⟩ := rfl

@[simp] theorem append_fail (cause : WireError) (second : Emission) :
    fail cause ++ second = fail cause := rfl

@[simp] theorem append_empty (emission : Emission) : emission ++ empty = emission := by
  obtain ⟨bytes, failure⟩ := emission
  cases failure with
  | some cause => rfl
  | none => exact congrArg (Emission.mk · none) (List.append_nil bytes)

@[simp] theorem empty_append (emission : Emission) : empty ++ emission = emission := rfl

theorem append_assoc (first second third : Emission) :
    first ++ second ++ third = first ++ (second ++ third) := by
  obtain ⟨firstBytes, firstFailure⟩ := first
  obtain ⟨secondBytes, secondFailure⟩ := second
  cases firstFailure with
  | some cause => rfl
  | none =>
    cases secondFailure with
    | some cause => rfl
    | none =>
      simp only [HAppend.hAppend, Append.append, append]
      exact congrArg (Emission.mk · third.failure) (List.append_assoc ..)

@[simp] theorem toExcept_ofExcept (outcome : Except WireError (List UInt8)) :
    (ofExcept outcome).toExcept = outcome := by
  cases outcome <;> rfl

end Emission

end ProtoWire
