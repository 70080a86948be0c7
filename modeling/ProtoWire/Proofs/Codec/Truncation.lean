import ProtoWire.Proofs.Codec.Records
import ProtoWire.Proofs.Wire.Cutting

/-!
Contract: messages that were cut off. What is left of a message after a cut is decoded only if the
cut stands between two records, and then to what the records in front of it say.

Owns:
- the readers of records on cut bytes;
- the decoding of every front part of a message.

Does not own: the bytes that are decoded as a message.
-/

namespace ProtoWire.Schema

variable {schema : Schema}

/-- A payload with its length in front is there as a whole before it is read, so that how its
content is read does not matter. -/
theorem noticesCuts_readRecord (levels : Nat) (messageName : String) (message : MessageType) :
    (schema.readRecord (schema.readWithin levels) messageName message).NoticesCuts :=
  Reader.keptByReaders_noticesCuts.record levels messageName message

/-- A cut between two top-level records of a message, with what the records in front of it and the
records behind it do to the fields. -/
def CutsRecords
    (schema : Schema)
    (messageName : String)
    (message : MessageType)
    (front back : List UInt8)
    (updates others : List Update) :
    Prop :=
  (schema.readRecord (schema.readWithin maxDepth) messageName message).CutsBetween front back
    updates others

/-- A front part of the bytes of a message that ends with a record is decoded to what these records
say. Every other front part is refused, and the cause is that bytes are missing. -/
theorem decode_front
    {name messageName : String}
    {index : Nat}
    {message : MessageType}
    (resolved : schema.resolve name = .ok (.definition index))
    (found : schema.definition? index = some ⟨messageName, .message message⟩)
    {front back : List UInt8}
    {value : Value}
    {consumed : Nat}
    (decoded : schema.decode name (front ++ back) = .ok (value, consumed)) :
    (∃ updates others, schema.CutsRecords messageName message front back updates others ∧
        value = .object messageName ((updates ++ others).foldl Update.apply []) ∧
        schema.decode name front =
          .ok (.object messageName (updates.foldl Update.apply []), front.length)) ∨
      (¬ ∃ updates others, schema.CutsRecords messageName message front back updates others) ∧
        ∃ cause, schema.decode name front = .error cause ∧ cause.IsShortage := by
  obtain ⟨all, pieces, rfl, -⟩ := (decode_message_eq_ok resolved found).mp decoded
  have leading {updates others : List Update}
      (cut : schema.CutsRecords messageName message front back updates others) :
      schema.decode name front =
        .ok (.object messageName (updates.foldl Update.apply []), front.length) :=
    (decode_message_eq_ok resolved found).mpr ⟨updates, cut.1, rfl, rfl⟩
  have records := (noticesCuts_readRecord maxDepth messageName message).many
    (schema.isLocal_readRecord maxDepth messageName message) (needsBytes_readRecord _ _ _)
    (Cursor.ofBytes front) pieces
  rcases records with ⟨updates, others, rfl, cut⟩ | short
  · exact .inl ⟨updates, others, cut, rfl, leading cut⟩
  · right
    obtain ⟨cause, after, outcome, missing⟩ := short.exists_error
    have failed : schema.decode name front = .error cause := by
      refine (decode_eq_error resolved).mpr ⟨after, ?_⟩
      rw [read, readWithin_message (maxDepth + 1) found]
      exact Reader.bind_of_error outcome
    refine ⟨?_, cause, failed, missing⟩
    rintro ⟨updates, others, cut⟩
    have both := failed.symm.trans (leading cut)
    cases both

/-- Parcels with a weight and parcels inside. -/
def parcelSchema : Schema :=
  ⟨[⟨"Parcel", .message
      ⟨[⟨"weight", 1, .scalar .sint32, .optional, false⟩,
        ⟨"content", 2, .definition 0, .repeated, false⟩], []⟩⟩]⟩

/-- A weight in two groups and a parcel inside. A cut behind the weight is not noticed; cuts in the
middle of the weight and in the middle of the inner parcel are. -/
theorem decode_front_parcel :
    parcelSchema.decode "Parcel" [8, 0x80, 1, 18, 2, 8, 5] =
      .ok (.object "Parcel"
        [("weight", .int32 64),
         ("content", .array [.object "Parcel" [("weight", .int32 (-3))]])], 7) ∧
    parcelSchema.decode "Parcel" [8, 0x80, 1] = .ok (.object "Parcel" [("weight", .int32 64)], 3) ∧
    (∃ cause, parcelSchema.decode "Parcel" [8, 0x80] = .error cause ∧ cause.IsShortage) ∧
    ∃ cause, parcelSchema.decode "Parcel" [8, 0x80, 1, 18, 2, 8] = .error cause ∧
      cause.IsShortage := by
  have resolved : parcelSchema.resolve "Parcel" = .ok (.definition 0) := rfl
  have decoded : parcelSchema.decode "Parcel" [8, 0x80, 1, 18, 2, 8, 5] =
      .ok (.object "Parcel"
        [("weight", .int32 64),
         ("content", .array [.object "Parcel" [("weight", .int32 (-3))]])], 7) := rfl
  refine ⟨decoded, rfl, ?_, ?_⟩
  · have cut : parcelSchema.decode "Parcel" ([8, 0x80] ++ [1, 18, 2, 8, 5]) = _ := decoded
    obtain ⟨_, _, _, _, leading⟩ | ⟨-, refused⟩ := decode_front resolved rfl cut
    · exact nomatch leading
    · exact refused
  · have cut : parcelSchema.decode "Parcel" ([8, 0x80, 1, 18, 2, 8] ++ [5]) = _ := decoded
    obtain ⟨_, _, _, _, leading⟩ | ⟨-, refused⟩ := decode_front resolved rfl cut
    · exact nomatch leading
    · exact refused

end ProtoWire.Schema
