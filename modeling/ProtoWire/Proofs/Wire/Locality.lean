import ProtoWire.Proofs.Wire.Composition
import ProtoWire.Proofs.Wire.Following

/-!
Contract: readers whose results are decided by the bytes that they take. Neither the position nor
what stands behind these bytes matters, so that what is read from the start of some bytes is read
from every longer run of bytes as well.

Owns:
- local readers, and their laws for sequences, regions and repetition;
- the one way in which a reader cuts bytes into pieces;
- the locality of the readers of numbers, runs, keys and scalars.

Does not own: fields, messages or frames.
-/

namespace ProtoWire

namespace Reader

variable {α β : Type}

/-- Wherever a reader succeeds, it takes some bytes, and it takes these bytes alike at every
position and whatever follows them. -/
def IsLocal (reader : Reader α) : Prop :=
  ∀ cursor value after, reader cursor = .ok value after →
    ∃ taken, cursor.rest = taken ++ after.rest ∧ reader.Reads taken value

/-- The end of the bytes is refused. -/
def NeedsBytes (reader : Reader α) : Prop :=
  ∀ offset value after, reader ⟨offset, []⟩ ≠ .ok value after

/-! ### Laws -/

theorem isLocal_pure (value : α) : (pure value : Reader α).IsLocal := by
  rintro cursor _ _ ⟨⟩
  exact ⟨[], rfl, reads_pure value⟩

theorem isLocal_throw (cause : WireError) : (throw cause : Reader α).IsLocal :=
  fun _ _ _ returned => nomatch returned

theorem IsLocal.bind
    {first : Reader α}
    {next : α → Reader β}
    (isLocal : first.IsLocal)
    (nextLocal : ∀ value, (next value).IsLocal) :
    (first >>= next).IsLocal := by
  intro cursor result after returned
  obtain ⟨value, middle, firstOk, nextOk⟩ := bind_eq_ok.mp returned
  obtain ⟨front, start, readsFront⟩ := isLocal cursor value middle firstOk
  obtain ⟨back, others, readsBack⟩ := nextLocal value middle result after nextOk
  refine ⟨front ++ back, ?_, readsFront.bind readsBack⟩
  rw [start, others, List.append_assoc]

theorem IsLocal.map
    {reader : Reader α}
    (isLocal : reader.IsLocal)
    (f : α → β) :
    (f <$> reader).IsLocal := by
  intro cursor result after returned
  obtain ⟨value, valueOk, rfl⟩ := map_eq_ok.mp returned
  obtain ⟨taken, start, reads⟩ := isLocal cursor value after valueOk
  exact ⟨taken, start, reads.map f⟩

theorem keptBySequences_isLocal : KeptBySequences IsLocal where
  returning := isLocal_pure
  failing := isLocal_throw
  sequence := IsLocal.bind

/-- What is read from a region does not depend on anything outside of it. -/
theorem isLocal_within (region : List UInt8) (reader : Reader α) :
    (within region reader).IsLocal := by
  intro cursor value after returned
  obtain ⟨inside, rfl⟩ := within_eq_ok.mp returned
  exact ⟨[], rfl, fun _ _ => within_eq_ok.mpr ⟨inside, rfl⟩⟩

theorem NeedsBytes.bind
    {first : Reader α}
    {next : α → Reader β}
    (needs : first.NeedsBytes) :
    (first >>= next).NeedsBytes := by
  intro offset result after returned
  obtain ⟨value, middle, firstOk, -⟩ := bind_eq_ok.mp returned
  exact needs offset value middle firstOk

theorem Reads.ne_nil
    {reader : Reader α}
    {bytes : List UInt8}
    {value : α}
    (reads : reader.Reads bytes value)
    (needs : reader.NeedsBytes) :
    bytes ≠ [] := by
  rintro rfl
  exact needs 0 value _ (reads 0 [])

/-- A reader takes the same bytes from the start of the same bytes. -/
theorem Reads.unique
    {reader : Reader α}
    {front back front' back' : List UInt8}
    {value value' : α}
    (first : reader.Reads front value)
    (second : reader.Reads front' value')
    (same : front ++ back = front' ++ back') :
    front = front' ∧ back = back' ∧ value = value' := by
  have outcome := first 0 back
  rw [same, second 0 back'] at outcome
  obtain ⟨rfl, sameCursor⟩ := EStateM.Result.ok.inj outcome
  obtain rfl : back' = back := congrArg Cursor.rest sameCursor
  exact ⟨List.append_cancel_right same, rfl, rfl⟩

/-- A local reader succeeds on none of the strict prefixes of the bytes that it takes. -/
theorem IsLocal.error_of_prefix
    {reader : Reader α}
    (isLocal : reader.IsLocal)
    {bytes front : List UInt8}
    {value : α}
    (reads : reader.Reads bytes value)
    (part : front <+: bytes)
    (strict : front ≠ bytes)
    (offset : Nat) :
    ∃ cause after, reader ⟨offset, front⟩ = .error cause after := by
  cases outcome : reader ⟨offset, front⟩ with
  | error cause after => exact ⟨cause, after, rfl⟩
  | ok other after =>
      obtain ⟨taken, start, again⟩ := isLocal _ other after outcome
      obtain ⟨back, rfl⟩ := part
      change front = taken ++ after.rest at start
      have whole : (front ++ back) ++ [] = taken ++ (after.rest ++ back) := by
        rw [List.append_nil, ← List.append_assoc, ← start]
      obtain ⟨-, nothing, -⟩ := reads.unique again whole
      obtain ⟨-, rfl⟩ := List.append_eq_nil_iff.mp nothing.symm
      exact absurd (List.append_nil front).symm strict

/-! ### Pieces -/

private theorem readsPieces_of_repeatAtMost
    {reader : Reader α}
    (isLocal : reader.IsLocal)
    (needs : reader.NeedsBytes)
    {count : Nat}
    {cursor after : Cursor}
    {values : List α}
    (enough : cursor.remaining ≤ count)
    (returned : repeatAtMost reader count cursor = .ok values after) :
    reader.ReadsPieces cursor.rest values := by
  induction count generalizing cursor values with
  | zero =>
      have atEnd : cursor.rest = [] := List.eq_nil_of_length_eq_zero (Nat.le_zero.mp enough)
      cases returned
      rw [atEnd]
      exact .nil
  | succ count inductionHypothesis =>
      unfold repeatAtMost at returned
      split at returned
      · rename_i atEnd
        cases returned
        rw [List.isEmpty_iff.mp atEnd]
        exact .nil
      · obtain ⟨first, middle, firstOk, rest⟩ := bind_eq_ok.mp returned
        obtain ⟨others, othersOk, rfl⟩ := map_eq_ok.mp rest
        obtain ⟨taken, start, reads⟩ := isLocal cursor first middle firstOk
        have nonempty := reads.ne_nil needs
        have shorter : middle.remaining ≤ count := by
          have positive : 0 < taken.length := List.length_pos_iff.mpr nonempty
          rw [Cursor.remaining, start, List.length_append] at enough
          rw [Cursor.remaining]
          omega
        rw [start]
        exact .cons reads nonempty (inductionHypothesis shorter othersOk)

/-- Repeated up to the end, a local reader succeeds exactly on the bytes that it cuts into pieces. -/
theorem many_eq_ok
    {reader : Reader α}
    (isLocal : reader.IsLocal)
    (needs : reader.NeedsBytes)
    {cursor after : Cursor}
    {values : List α} :
    many reader cursor = .ok values after ↔
      reader.ReadsPieces cursor.rest values ∧ after = ⟨cursor.offset + cursor.remaining, []⟩ := by
  constructor
  · intro returned
    have pieces := readsPieces_of_repeatAtMost isLocal needs (Nat.le_refl _) returned
    have exhausted := pieces.many_exhausts cursor.offset
    exact ⟨pieces, (EStateM.Result.ok.inj (returned.symm.trans exhausted)).2⟩
  · rintro ⟨pieces, rfl⟩
    exact pieces.many_exhausts cursor.offset

/-- Bytes are cut into pieces in one way only: the pieces of some bytes are the first pieces of
every longer run of bytes. -/
theorem ReadsPieces.split
    {reader : Reader α}
    {front back : List UInt8}
    {values all : List α}
    (first : reader.ReadsPieces front values)
    (whole : reader.ReadsPieces (front ++ back) all) :
    ∃ others, all = values ++ others ∧ reader.ReadsPieces back others := by
  induction first generalizing all with
  | nil => exact ⟨all, rfl, whole⟩
  | @cons piece rest value values reads nonempty _ inductionHypothesis =>
      rw [List.append_assoc] at whole
      generalize same : piece ++ (rest ++ back) = bytes at whole
      cases whole with
      | nil => exact absurd (List.append_eq_nil_iff.mp same).1 nonempty
      | cons again _ later =>
          obtain ⟨-, rfl, rfl⟩ := Reads.unique reads again same
          obtain ⟨others, rfl, pieces⟩ := inductionHypothesis later
          exact ⟨others, rfl, pieces⟩

/-! ### Numbers, runs and keys -/

theorem isLocal_byte : byte.IsLocal := by
  rintro ⟨offset, rest⟩ value after returned
  cases rest with
  | nil => cases returned
  | cons first others =>
      cases returned
      exact ⟨[value], rfl, reads_byte value⟩

theorem isLocal_bytes (count : Nat) : (bytes count).IsLocal := by
  rintro ⟨offset, rest⟩ run after returned
  unfold bytes at returned
  split at returned
  · rename_i enough
    cases returned
    have length : (rest.take count).length = count := by
      rw [Cursor.has_iff] at enough
      exact List.length_take_of_le enough
    have reads := reads_bytes (rest.take count)
    rw [length] at reads
    exact ⟨rest.take count, (List.take_append_drop count rest).symm, reads⟩
  · cases returned

/-- The position from which an overlong number is reported matters for errors only. -/
private theorem follows_varintGroups (start other groups : Nat) :
    (varintGroups other groups).Follows id (varintGroups start groups) := by
  induction groups with
  | zero => exact follows_throw _ _ _
  | succ groups inductionHypothesis =>
      unfold varintGroups
      apply follows_bind
      intro group
      by_cases last : group < 0x80
      · rw [if_pos last, if_pos last]
        exact follows_pure rfl
      · rw [if_neg last, if_neg last]
        exact inductionHypothesis.bind fun higher => follows_pure rfl

theorem isLocal_varint : varint.IsLocal := by
  intro cursor number after returned
  have isLocal := keptBySequences_isLocal.varintGroups isLocal_byte cursor.offset Varint.maxGroups
  obtain ⟨taken, start, reads⟩ := isLocal cursor number after returned
  refine ⟨taken, start, fun offset rest => ?_⟩
  exact follows_varintGroups cursor.offset offset _ _ number _ (reads offset rest)

theorem needsBytes_varint : varint.NeedsBytes := by
  rintro offset number after ⟨⟩

theorem keptByReaders_isLocal : KeptByReaders IsLocal where
  toKeptBySequences := keptBySequences_isLocal
  varint := isLocal_varint
  bytes := isLocal_bytes
  within := isLocal_within

theorem isLocal_key : key.IsLocal :=
  keptByReaders_isLocal.key

theorem needsBytes_key : key.NeedsBytes :=
  needsBytes_varint.bind

end Reader

/-- A scalar that delimits itself is read from its own bytes alone. -/
theorem Scalar.isLocal_read {type : Scalar} (bare : type.wireType ≠ .lengthDelimited) :
    type.read.IsLocal :=
  Reader.keptByReaders_isLocal.scalar bare

end ProtoWire
