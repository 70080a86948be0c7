import Mathlib.Data.List.Forall2
import ProtoWire.Proofs.Codec.RoundTrip
import ProtoWire.Proofs.Schema.Lookup
import ProtoWire.Proofs.Wire.Locality

/-!
Contract: frames delimit themselves. A frame is read from its first to its last byte and no
further, so that frames one behind the other are read one by one, and a frame of which the end is
missing is refused.

Owns:
- the locality of the readers of lengths and of frames;
- reading in turn from one position;
- the reading of framed messages that stand one behind the other.

Does not own: what is inside of the frames.
-/

namespace ProtoWire

/-! ### Reading in turn -/

namespace Reader

variable {α : Type}

/-- What a reader returns when it is used some times, and the position behind each result. -/
def inTurn (reader : Reader α) : Nat → Reader (List (α × Nat))
  | 0 => pure []
  | count + 1 => do
      let value ← reader
      let cursor ← get
      let others ← reader.inTurn count
      pure ((value, cursor.offset) :: others)

/-- From pieces that a reader takes one by one, it takes no byte too many or too few at any time. -/
theorem inTurn_of_reads
    {reader : Reader α}
    {values : List α}
    {pieces : List (List UInt8)}
    (reads : List.Forall₂ (fun value piece => reader.Reads piece value) values pieces)
    (offset : Nat)
    (rest : List UInt8) :
    ∃ results,
      reader.inTurn values.length ⟨offset, pieces.flatten ++ rest⟩ =
          .ok results ⟨offset + pieces.flatten.length, rest⟩ ∧
        results.map Prod.fst = values ∧
        ∀ place < pieces.length, (results.map Prod.snd)[place]? =
          some (offset + (pieces.take (place + 1)).flatten.length) := by
  induction reads generalizing offset with
  | nil => exact ⟨[], rfl, rfl, fun _ impossible => absurd impossible (Nat.not_lt_zero _)⟩
  | @cons value piece values pieces first _ inductionHypothesis =>
      obtain ⟨results, others, same, positions⟩ := inductionHypothesis (offset + piece.length)
      refine ⟨(value, offset + piece.length) :: results, ?_, congrArg (value :: ·) same, ?_⟩
      · rw [List.flatten_cons, List.append_assoc, List.length_cons, inTurn,
          bind_of_ok (first offset _), bind_get, bind_of_ok others,
          List.length_append, ← Nat.add_assoc]
        rfl
      · intro place bound
        cases place with
        | zero => simp
        | succ before =>
            have later := positions before (Nat.lt_of_succ_lt_succ bound)
            rw [List.map_cons, List.getElem?_cons_succ, later, List.take_succ_cons,
              List.flatten_cons, List.length_append, Nat.add_assoc]

/-- Readers that succeed alike are local together. -/
theorem IsLocal.of_ok_iff
    {reader other : Reader α}
    (isLocal : other.IsLocal)
    (alike : ∀ cursor value after,
      reader cursor = .ok value after ↔ other cursor = .ok value after) :
    reader.IsLocal := by
  intro cursor value after returned
  obtain ⟨taken, start, reads⟩ := isLocal cursor value after ((alike _ _ _).mp returned)
  exact ⟨taken, start, fun offset rest => (alike _ _ _).mpr (reads offset rest)⟩

end Reader

/-! ### Frames -/

namespace Framing

theorem isLocal_readLength (framing : Framing) : framing.readLength.IsLocal :=
  Reader.keptByReaders_isLocal.length framing

/-- Positions occur in the errors of the reader of frames only. -/
theorem readPayload_eq_ok
    {framing : Framing}
    {cursor after : Cursor}
    {payload : List UInt8} :
    framing.readPayload cursor = .ok payload after ↔
      (framing.readLength >>= Reader.bytes) cursor = .ok payload after := by
  unfold readPayload
  rw [Reader.bind_get, Reader.bind_eq_ok, Reader.bind_eq_ok]
  refine exists_congr fun length => exists_congr fun middle => and_congr_right fun _ => ?_
  rw [Reader.bind_get]
  cases enough : middle.has length with
  | true => rfl
  | false =>
      unfold Reader.bytes
      rw [enough]
      constructor <;> rintro ⟨⟩

theorem isLocal_readPayload (framing : Framing) : framing.readPayload.IsLocal :=
  (framing.isLocal_readLength.bind Reader.isLocal_bytes).of_ok_iff fun _ _ _ => readPayload_eq_ok

end Framing

/-! ### Framed messages -/

namespace Schema

variable {schema : Schema}

/-- A value is written as some bytes. Their count fits in a length on the wire, and the value has
no more levels of messages than are read. -/
structure Writes
    (schema : Schema)
    (name : String)
    (type : TypeRef)
    (value : Value)
    (bytes : List UInt8) : Prop where
  encoded : schema.encode name value = .ok bytes
  fits : bytes.length < UInt64.size
  shallow : (schema.canonical type value).nesting ≤ maxDepth + 1

/-- The frames of a type delimit themselves: messages in frames are read back one by one, in their
canonical forms, whatever follows them. -/
structure DelimitsItself (schema : Schema) (name inner : String) (type : TypeRef) : Prop where
  /-- After each frame, the position is the count of all bytes up to its end. -/
  stream : ∀ values pieces rest, List.Forall₂ (schema.Writes name type) values pieces →
    ∃ results,
      (schema.read type).inTurn values.length (Cursor.ofBytes (pieces.flatten ++ rest)) =
          .ok results ⟨pieces.flatten.length, rest⟩ ∧
        results.map Prod.fst = values.map (schema.canonical type) ∧
        ∀ place < pieces.length,
          (results.map Prod.snd)[place]? = some (pieces.take (place + 1)).flatten.length
  /-- The canonical form of a framed message is that of the message alone. -/
  bare : ∀ value bytes, schema.Writes name type value bytes →
    ∃ payload, schema.encode inner value = .ok payload ∧
      schema.decode inner payload = .ok (schema.canonical type value, payload.length)
  /-- No byte at the end of a frame may be missing. -/
  cut : ∀ value bytes front, schema.encode name value = .ok bytes →
    front <+: bytes → front ≠ bytes → ∃ cause, schema.decode name front = .error cause

section Frames

variable
  {index : Nat}
  {name inner : String}
  {type : FramedType}
  {message : MessageType}

private theorem reads_of_writes
    (wellFormed : schema.WellFormed)
    (resolved : schema.resolve name = .ok (.definition index))
    (found : schema.definition? index = some ⟨name, .framed type⟩)
    {value : Value}
    {bytes : List UInt8}
    (writes : schema.Writes name (.definition index) value bytes) :
    (schema.read (.definition index)).Reads bytes (schema.canonical (.definition index) value) := by
  have written := writes.encoded
  rw [encode_eq wellFormed.frames resolved, Emission.toExcept_eq_ok] at written
  exact reads_framed wellFormed.frames found (readsBack wellFormed _ _ value) written writes.fits
    writes.shallow

/-- The payload of a frame is what the message writes when it is not framed. -/
private theorem decode_inner_of_writes
    (wellFormed : schema.WellFormed)
    (resolved : schema.resolve name = .ok (.definition index))
    (found : schema.definition? index = some ⟨name, .framed type⟩)
    (innerFound : schema.definition? type.inner = some ⟨inner, .message message⟩)
    {value : Value}
    {bytes : List UInt8}
    (writes : schema.Writes name (.definition index) value bytes) :
    ∃ payload, schema.encode inner value = .ok payload ∧
      schema.decode inner payload =
        .ok (schema.canonical (.definition index) value, payload.length) := by
  obtain ⟨encoded, fits, shallow⟩ := writes
  have innerResolved := wellFormed.resolve_of_definition? innerFound
  rw [encode_eq wellFormed.frames resolved, Emission.toExcept_eq_ok] at encoded
  obtain ⟨payload, content, -, rfl⟩ := (emit_framed wellFormed.frames found).mp encoded
  obtain ⟨typeName, fields, rfl⟩ := isObject_of_emit innerFound content
  have alone : schema.encode inner (.object typeName fields) = .ok payload := by
    rw [encode_eq wellFormed.frames innerResolved, Emission.toExcept_eq_ok]
    exact content
  rw [canonical_framed wellFormed.frames found] at shallow ⊢
  rw [List.length_append] at fits
  exact ⟨payload, alone, wellFormed.decode_encode innerResolved alone (by omega) shallow⟩

/-- A frame of which the end is missing is refused before anything inside of it is read. -/
private theorem decode_error_of_prefix
    (wellFormed : schema.WellFormed)
    (resolved : schema.resolve name = .ok (.definition index))
    (found : schema.definition? index = some ⟨name, .framed type⟩)
    {value : Value}
    {bytes front : List UInt8}
    (encoded : schema.encode name value = .ok bytes)
    (part : front <+: bytes)
    (strict : front ≠ bytes) :
    ∃ cause, schema.decode name front = .error cause := by
  obtain ⟨sound, -⟩ := wellFormed.frames _ (mem_of_definition? found) type rfl
  rw [encode_eq wellFormed.frames resolved, Emission.toExcept_eq_ok] at encoded
  obtain ⟨payload, -, checked, rfl⟩ := (emit_framed wellFormed.frames found).mp encoded
  obtain ⟨cause, stopped, refused⟩ := type.framing.isLocal_readPayload.error_of_prefix
    (Framing.reads_payload sound checked) part strict 0
  cases decoded : schema.decode name front with
  | error cause => exact ⟨cause, rfl⟩
  | ok result =>
      obtain ⟨cursor, returned, -⟩ := (decode_eq_ok resolved).mp decoded
      rw [read, readWithin_framed wellFormed.frames (maxDepth + 1) found] at returned
      obtain ⟨_, _, opened, -⟩ := Reader.bind_eq_ok.mp returned
      cases refused.symm.trans opened

theorem WellFormed.delimitsItself
    (wellFormed : schema.WellFormed)
    (found : schema.definition? index = some ⟨name, .framed type⟩)
    (innerFound : schema.definition? type.inner = some ⟨inner, .message message⟩) :
    schema.DelimitsItself name inner (.definition index) := by
  have resolved := wellFormed.resolve_of_definition? found
  constructor
  · intro values pieces rest written
    have reads : List.Forall₂ (fun value piece => (schema.read (.definition index)).Reads piece value)
        (values.map (schema.canonical (.definition index))) pieces :=
      List.forall₂_map_left_iff.mpr
        (written.imp fun _ _ writes => reads_of_writes wellFormed resolved found writes)
    have taken := Reader.inTurn_of_reads reads 0 rest
    simp only [List.length_map, Nat.zero_add] at taken
    exact taken
  · exact fun value bytes => decode_inner_of_writes wellFormed resolved found innerFound
  · exact fun value bytes front => decode_error_of_prefix wellFormed resolved found

end Frames

end Schema

end ProtoWire
