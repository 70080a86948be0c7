import ProtoWire.Proofs.Outcome
import ProtoWire.Codec.Encode

/-!
Contract: how many bytes an emission writes, and when it succeeds.

Owns:
- the count of an emission, and its laws for emissions in sequence;
- what a successful sequence says about its parts;
- the effect of an emission on a buffer.

Does not own: the emission of any type.
-/

namespace ProtoWire

open Outcome

namespace Emission

/-- How many bytes are written, or the cause that ends the writing early. -/
def count (emission : Emission) : Except WireError Nat :=
  List.length <$> emission.toExcept

/-- A buffer behind an emission, and the outcome of the emission. -/
def appendTo (emission : Emission) (buffer : List UInt8) : List UInt8 × Except WireError Unit :=
  (buffer ++ emission.bytes, (fun _ => ()) <$> emission.toExcept)

@[simp] theorem count_ofBytes (bytes : List UInt8) : (ofBytes bytes).count = .ok bytes.length := rfl

@[simp] theorem count_empty : empty.count = .ok 0 := rfl

theorem count_ofExcept (outcome : Except WireError (List UInt8)) :
    (ofExcept outcome).count = List.length <$> outcome := by
  rw [count, toExcept_ofExcept]

theorem count_append (first second : Emission) :
    (first ++ second).count = (do
      let size ← first.count
      let others ← second.count
      pure (size + others)) := by
  obtain ⟨firstBytes, firstFailure⟩ := first
  obtain ⟨secondBytes, secondFailure⟩ := second
  cases firstFailure with
  | some cause => rfl
  | none =>
      cases secondFailure with
      | some cause => rfl
      | none => exact congrArg Except.ok List.length_append

/-- Emissions in sequence write the sum of what they write one by one. -/
theorem count_concat_map
    {α : Type}
    {emit : α → Emission}
    {size : α → Except WireError Nat}
    {items : List α}
    (counted : ∀ item ∈ items, (emit item).count = size item) :
    (concat (items.map emit)).count = Schema.totalSize <$> items.mapM size := by
  induction items with
  | nil => rfl
  | cons item others inductionHypothesis =>
      have tail := inductionHypothesis fun other member =>
        counted other (List.mem_cons_of_mem item member)
      change (emit item ++ concat (others.map emit)).count = _
      rw [count_append, counted item List.mem_cons_self, tail, List.mapM_cons]
      cases size item with
      | error cause => rfl
      | ok first => cases others.mapM size <;> rfl

theorem count_eq_ok {emission : Emission} {size : Nat} :
    emission.count = .ok size ↔ emission.failure = none ∧ emission.bytes.length = size := by
  obtain ⟨bytes, failure⟩ := emission
  cases failure <;> simp [count, toExcept]

theorem count_eq_error {emission : Emission} {cause : WireError} :
    emission.count = .error cause ↔ emission.failure = some cause := by
  obtain ⟨bytes, failure⟩ := emission
  cases failure <;> simp [count, toExcept]

/-! ### Success -/

theorem toExcept_eq_ok {emission : Emission} {bytes : List UInt8} :
    emission.toExcept = .ok bytes ↔ emission = ofBytes bytes := by
  obtain ⟨written, failure⟩ := emission
  cases failure <;> simp [toExcept, ofBytes]

theorem ofBytes_inj {first second : List UInt8} : ofBytes first = ofBytes second ↔ first = second := by
  simp [ofBytes]

theorem ofExcept_eq_ofBytes {outcome : Except WireError (List UInt8)} {bytes : List UInt8} :
    ofExcept outcome = ofBytes bytes ↔ outcome = .ok bytes := by
  rw [← toExcept_eq_ok, toExcept_ofExcept]

/-- A sequence succeeds when both parts do, and writes one part behind the other. -/
theorem append_eq_ofBytes {first second : Emission} {bytes : List UInt8} :
    first ++ second = ofBytes bytes ↔
      ∃ front back, first = ofBytes front ∧ second = ofBytes back ∧ bytes = front ++ back := by
  constructor
  · intro written
    obtain ⟨firstBytes, firstFailure⟩ := first
    obtain ⟨secondBytes, secondFailure⟩ := second
    cases firstFailure with
    | some cause => exact nomatch congrArg failure written
    | none =>
        obtain rfl : secondFailure = none := congrArg failure written
        exact ⟨firstBytes, secondBytes, rfl, rfl, (congrArg Emission.bytes written).symm⟩
  · rintro ⟨front, back, rfl, rfl, rfl⟩
    rfl

theorem concat_cons (emission : Emission) (others : List Emission) :
    concat (emission :: others) = emission ++ concat others := rfl

/-- A sequence succeeds only if all of its parts do. -/
theorem exists_of_concat_map
    {α : Type}
    {emit : α → Emission}
    {items : List α}
    {bytes : List UInt8}
    (written : concat (items.map emit) = ofBytes bytes)
    {item : α}
    (member : item ∈ items) :
    ∃ piece, emit item = ofBytes piece := by
  induction items generalizing bytes with
  | nil => cases member
  | cons first others inductionHypothesis =>
      rw [List.map_cons, concat_cons, append_eq_ofBytes] at written
      obtain ⟨front, rest, firstOk, later, -⟩ := written
      rcases List.mem_cons.mp member with rfl | inside
      · exact ⟨front, firstOk⟩
      · exact inductionHypothesis later inside

/-! ### Buffers -/

theorem appendTo_eq_ok {emission : Emission} {size : Nat} :
    (∃ written, written.length = size ∧
        ∀ buffer, emission.appendTo buffer = (buffer ++ written, .ok ())) ↔
      emission.failure = none ∧ emission.bytes.length = size := by
  obtain ⟨bytes, failure⟩ := emission
  constructor
  · rintro ⟨written, length, appended⟩
    have fresh := appended []
    cases failure with
    | some cause => exact nomatch congrArg Prod.snd fresh
    | none =>
        obtain rfl : bytes = written := congrArg Prod.fst fresh
        exact ⟨rfl, length⟩
  · rintro ⟨rfl, length⟩
    exact ⟨bytes, length, fun _ => rfl⟩

theorem appendTo_eq_error {emission : Emission} {cause : WireError} :
    (∀ buffer, (emission.appendTo buffer).2 = .error cause) ↔ emission.failure = some cause := by
  obtain ⟨bytes, failure⟩ := emission
  cases failure <;> simp [appendTo, toExcept]

end Emission

end ProtoWire
