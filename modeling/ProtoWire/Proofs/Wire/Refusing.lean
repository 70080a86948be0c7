import ProtoWire.Proofs.Wire.Motion

/-!
Contract: readers that fail for one cause on given bytes. Refused bytes are refused behind whatever
was read before them, and whatever follows them.

Owns:
- bytes that a reader refuses, on their own and in front of others;
- bytes on which the repetition of a reader stalls;
- the laws of both for sequences and regions.

Does not own: the causes.
-/

namespace ProtoWire

namespace Reader

variable {α β : Type} {cause : WireError}

/-- A reader fails for a cause on bytes that nothing follows. -/
def RefusesAll (reader : Reader α) (bytes : List UInt8) (cause : WireError) : Prop :=
  ∀ offset, ∃ after, reader ⟨offset, bytes⟩ = .error cause after

/-- A reader fails for a cause on some bytes, whatever follows them. -/
def Refuses (reader : Reader α) (bytes : List UInt8) (cause : WireError) : Prop :=
  ∀ offset rest, ∃ after, reader ⟨offset, bytes ++ rest⟩ = .error cause after

theorem Refuses.refusesAll
    {reader : Reader α}
    {bytes : List UInt8}
    (refuses : reader.Refuses bytes cause) :
    reader.RefusesAll bytes cause := by
  intro offset
  have failed := refuses offset []
  rwa [List.append_nil] at failed

theorem refusesAll_throw (cause : WireError) (bytes : List UInt8) :
    (throw cause : Reader α).RefusesAll bytes cause :=
  fun _ => ⟨_, rfl⟩

theorem RefusesAll.bind
    {first : Reader α}
    {bytes : List UInt8}
    (refuses : first.RefusesAll bytes cause)
    (next : α → Reader β) :
    (first >>= next).RefusesAll bytes cause := by
  intro offset
  obtain ⟨after, failed⟩ := refuses offset
  exact ⟨after, bind_of_error failed⟩

theorem Refuses.bind
    {first : Reader α}
    {bytes : List UInt8}
    (refuses : first.Refuses bytes cause)
    (next : α → Reader β) :
    (first >>= next).Refuses bytes cause := by
  intro offset rest
  obtain ⟨after, failed⟩ := refuses offset rest
  exact ⟨after, bind_of_error failed⟩

/-- The second of two readers refuses what stands behind the bytes of the first one. -/
theorem Reads.bind_refuses
    {first : Reader α}
    {next : α → Reader β}
    {front back : List UInt8}
    {value : α}
    (reads : first.Reads front value)
    (refuses : (next value).Refuses back cause) :
    (first >>= next).Refuses (front ++ back) cause := by
  intro offset rest
  obtain ⟨after, failed⟩ := refuses (offset + front.length) rest
  refine ⟨after, ?_⟩
  rw [List.append_assoc, bind_of_ok (reads offset (back ++ rest)), failed]

/-- A region is refused as a whole. -/
theorem RefusesAll.within
    {reader : Reader α}
    {region : List UInt8}
    (refuses : reader.RefusesAll region cause) :
    (within region reader).Refuses [] cause := by
  intro offset rest
  obtain ⟨after, failed⟩ := refuses 0
  refine ⟨⟨offset, rest⟩, ?_⟩
  rw [within_eq, Cursor.ofBytes, failed]
  rfl

/-! ### Repetition -/

/-- Behind some pieces, none of them empty, stands one that is refused. -/
inductive Stalls (reader : Reader α) (cause : WireError) : List UInt8 → Prop where
  | here {piece rest : List UInt8}
      (refuses : reader.Refuses piece cause)
      (nonempty : piece ≠ []) :
      Stalls reader cause (piece ++ rest)
  | behind {piece rest : List UInt8} {value : α}
      (reads : reader.Reads piece value)
      (nonempty : piece ≠ [])
      (later : Stalls reader cause rest) :
      Stalls reader cause (piece ++ rest)

theorem Refuses.stalls
    {reader : Reader α}
    {piece : List UInt8}
    (refuses : reader.Refuses piece cause)
    (nonempty : piece ≠ []) :
    reader.Stalls cause piece := by
  rw [← List.append_nil piece]
  exact .here refuses nonempty

theorem Stalls.append
    {reader : Reader α}
    {bytes : List UInt8}
    (stalls : reader.Stalls cause bytes)
    (more : List UInt8) :
    reader.Stalls cause (bytes ++ more) := by
  induction stalls with
  | here refuses nonempty =>
      rw [List.append_assoc]
      exact .here refuses nonempty
  | behind reads nonempty _ inductionHypothesis =>
      rw [List.append_assoc]
      exact .behind reads nonempty inductionHypothesis

theorem ReadsPieces.stalls
    {reader : Reader α}
    {front back : List UInt8}
    {values : List α}
    (pieces : reader.ReadsPieces front values)
    (stalls : reader.Stalls cause back) :
    reader.Stalls cause (front ++ back) := by
  induction pieces with
  | nil => exact stalls
  | cons reads nonempty _ inductionHypothesis =>
      rw [List.append_assoc]
      exact .behind reads nonempty inductionHypothesis

private theorem repeatAtMost_refusesAll
    {reader : Reader α}
    {bytes : List UInt8}
    (stalls : reader.Stalls cause bytes)
    {count : Nat}
    (enough : bytes.length ≤ count) :
    (repeatAtMost reader count).RefusesAll bytes cause := by
  -- Each piece takes at least one byte, so that the count is not used up in front of the last one.
  have started {piece : List UInt8} (nonempty : piece ≠ []) (rest : List UInt8) :
      (∀ offset, (Cursor.mk offset (piece ++ rest)).isAtEnd = false) ∧
        (piece ++ rest).length = rest.length + piece.length ∧ 0 < piece.length := by
    refine ⟨fun offset => ?_, ?_, List.length_pos_iff.mpr nonempty⟩
    · rw [Cursor.isAtEnd, List.isEmpty_eq_false_iff]
      exact List.append_ne_nil_of_left_ne_nil nonempty rest
    · rw [List.length_append, Nat.add_comm]
  induction stalls generalizing count with
  | @here piece rest refuses nonempty =>
      obtain ⟨more, length, positive⟩ := started nonempty rest
      obtain ⟨fewer, rfl⟩ : ∃ fewer, count = fewer + 1 := ⟨count - 1, by omega⟩
      intro offset
      obtain ⟨after, failed⟩ := refuses offset rest
      refine ⟨after, ?_⟩
      unfold repeatAtMost
      rw [more offset]
      exact bind_of_error failed
  | @behind piece rest value reads nonempty later inductionHypothesis =>
      obtain ⟨more, length, positive⟩ := started nonempty rest
      obtain ⟨fewer, rfl⟩ : ∃ fewer, count = fewer + 1 := ⟨count - 1, by omega⟩
      have tail : (repeatAtMost reader fewer).RefusesAll rest cause :=
        inductionHypothesis (by omega)
      intro offset
      obtain ⟨after, failed⟩ := tail (offset + piece.length)
      refine ⟨after, ?_⟩
      unfold repeatAtMost
      rw [more offset]
      show (reader >>= _) _ = _
      rw [bind_of_ok (reads offset rest)]
      exact bind_of_error failed

/-- The repetition fails for the cause for which the piece is refused. -/
theorem Stalls.many
    {reader : Reader α}
    {bytes : List UInt8}
    (stalls : reader.Stalls cause bytes) :
    (many reader).RefusesAll bytes cause :=
  fun offset => repeatAtMost_refusesAll stalls (Nat.le_refl bytes.length) offset

end Reader

end ProtoWire
