import ProtoWire.Proofs.Codec.Rules
import ProtoWire.Proofs.Codec.Streams

/-!
Contract: decoding takes its own bytes and no others. It ends for all bytes, at a place inside of
them, and a value that it returns says what stands between the place where it started and the
place where it has stopped.

Owns:
- where the readers of lengths, records and values stop;
- the bytes that decide a value of each kind of type;
- decoding from any place of some bytes.

Does not own: which values are returned.
-/

namespace ProtoWire

/-! ### Stopping inside -/

namespace Framing

theorem staysInside_readLength (framing : Framing) : framing.readLength.StaysInside :=
  Reader.keptByReaders_staysInside.length framing

theorem staysInside_readPayload (framing : Framing) : framing.readPayload.StaysInside := by
  apply Reader.staysInside_get.bind
  intro start
  apply framing.staysInside_readLength.bind
  intro length
  apply Reader.staysInside_get.bind
  intro cursor
  apply iteInduction
  · exact fun _ => (Reader.staysInside_throw _).bind fun _ => Reader.staysInside_bytes _
  · exact fun _ => Reader.staysInside_bytes _

/-- A length in front of a frame takes at least one byte. -/
private theorem needsBytes_readSignedLength (scalar : Scalar) :
    (readSignedLength scalar).NeedsBytes := by
  have word : Reader.varint.NeedsBytes := Reader.needsBytes_varint
  have narrow : (Reader.bytes 4).NeedsBytes := Reader.needsBytes_bytes (by decide)
  have wide : (Reader.bytes 8).NeedsBytes := Reader.needsBytes_bytes (by decide)
  cases scalar with
  | uint32 | int32 | int64 | sint32 | sint64 => exact (word.map _).map _
  | uint64 => exact word.map _
  | fixed32 => exact (narrow.map _).map _
  | sfixed32 => exact ((narrow.map _).map _).map _
  | fixed64 => exact (wide.map _).map _
  | sfixed64 => exact ((wide.map _).map _).map _
  | bool | float | double | string | bytes => exact Reader.needsBytes_throw _

/-- The payload of a frame stands behind the length, and has that length. -/
theorem exists_of_readPayload
    {framing : Framing}
    {cursor after : Cursor}
    {payload : List UInt8}
    (returned : framing.readPayload cursor = .ok payload after) :
    ∃ length behind, framing.readLength cursor = .ok length behind ∧
      length ≤ behind.remaining ∧ after = behind.skip length := by
  obtain ⟨length, behind, lengthOk, bytesOk⟩ :=
    Reader.bind_eq_ok.mp (readPayload_eq_ok.mp returned)
  obtain ⟨enough, -, rfl⟩ := Reader.bytes_eq_ok.mp bytesOk
  exact ⟨length, behind, lengthOk, enough, rfl⟩

/-- A frame takes at least one byte, except if its length is fixed and zero. -/
theorem needsBytes_readPayload {framing : Framing} (nonempty : framing ≠ .fixed 0) :
    framing.readPayload.NeedsBytes := by
  intro offset payload after returned
  obtain ⟨length, behind, lengthOk, enough, -⟩ := exists_of_readPayload returned
  cases framing with
  | fixed size =>
      obtain ⟨rfl, rfl⟩ := EStateM.Result.ok.inj lengthOk
      exact nonempty (congrArg fixed (Nat.le_zero.mp enough))
  | prefixed scalar =>
      exact (needsBytes_readSignedLength scalar).bind offset length behind lengthOk

end Framing

namespace Schema

variable {schema : Schema}

theorem staysInside_readBody (levels : Nat) (name : String) (message : MessageType) :
    (schema.readBody levels name message).StaysInside := by
  cases levels with
  | zero => exact Reader.staysInside_throw _
  | succ fewer =>
      have inside :
          (schema.readRecord (schema.readWithin fewer) name message).StaysInside :=
        Reader.keptByReaders_staysInside.record fewer name message
      exact inside.many.bind fun _ => Reader.staysInside_pure _

theorem IsClosed.staysInside_readWithin
    (closed : schema.IsClosed)
    (levels : Nat)
    {type : TypeRef}
    (has : schema.Has type) :
    (schema.readWithin levels type).StaysInside := by
  cases type with
  | scalar type =>
      rw [readWithin_scalar]
      exact type.staysInside_read
  | definition index =>
      obtain ⟨⟨name, message | enum | framed⟩, found⟩ := definition?_of_has has
      · rw [readWithin_message levels found]
        exact staysInside_readBody levels name message
      · rw [readWithin_enum levels found]
        exact Reader.keptByReaders_staysInside.enum name enum
      · obtain ⟨inner, message, innerFound⟩ := closed.framed found
        rw [readWithin_framed_message levels found innerFound]
        exact framed.framing.staysInside_readPayload.bind fun payload =>
          Reader.staysInside_within payload _

/-! ### Own bytes -/

/-- Values of these types have no end of their own: they take all bytes that are left. -/
inductive TakesRest (schema : Schema) : TypeRef → Prop where
  | string : TakesRest schema (.scalar .string)
  | bytes : TakesRest schema (.scalar .bytes)
  | message {index : Nat} {name : String} {message : MessageType}
      (found : schema.definition? index = some ⟨name, .message message⟩) :
      TakesRest schema (.definition index)

/-- The frames that a type stands for, if it stands for frames. -/
def framing? (schema : Schema) : TypeRef → Option Framing
  | .scalar _ => none
  | .definition index =>
      match (schema.definition? index).map Definition.kind with
      | some (.framed type) => some type.framing
      | _ => none

theorem framing?_of_definition? {index : Nat} {name : String} {type : FramedType}
    (found : schema.definition? index = some ⟨name, .framed type⟩) :
    schema.framing? (.definition index) = some type.framing := by
  rw [framing?, found]
  rfl

theorem exists_of_framing? {type : TypeRef} {framing : Framing}
    (framed : schema.framing? type = some framing) :
    ∃ index name wrapped, type = .definition index ∧
      schema.definition? index = some ⟨name, .framed wrapped⟩ ∧ wrapped.framing = framing := by
  cases type with
  | scalar type => cases framed
  | definition index =>
      rw [framing?] at framed
      rcases found : schema.definition? index with _ | ⟨name, message | enum | wrapped⟩
      · rw [found] at framed
        cases framed
      · rw [found] at framed
        cases framed
      · rw [found] at framed
        cases framed
      · rw [found] at framed
        exact ⟨index, name, wrapped, rfl, found, Option.some.inj framed⟩

theorem takesAll_readBody (levels : Nat) (name : String) (message : MessageType) :
    (schema.readBody levels name message).TakesAll := by
  cases levels with
  | zero => exact fun _ _ _ returned => nomatch returned
  | succ fewer =>
      have isLocal : (schema.readRecord (schema.readWithin fewer) name message).IsLocal :=
        isLocal_readRecord fewer name message
      have records := isLocal.takesAll_many (needsBytes_readRecord _ name message)
      exact records.map fun updates => Value.object name (updates.foldl Update.apply [])

theorem takesAll_readWithin
    (levels : Nat)
    {type : TypeRef}
    (takesRest : schema.TakesRest type) :
    (schema.readWithin levels type).TakesAll := by
  cases takesRest with
  | string =>
      rw [readWithin_scalar]
      exact Reader.takesAll_restAsText.map _
  | bytes =>
      rw [readWithin_scalar]
      exact Reader.takesAll_rest.map _
  | message found =>
      rw [readWithin_message levels found]
      exact takesAll_readBody levels _ _

theorem IsClosed.readWithin_of_framing?
    (closed : schema.IsClosed)
    (levels : Nat)
    {type : TypeRef}
    {framing : Framing}
    (framed : schema.framing? type = some framing) :
    ∃ content, schema.readWithin levels type = (do
      let payload ← framing.readPayload
      Reader.within payload content) := by
  obtain ⟨index, name, wrapped, rfl, found, rfl⟩ := exists_of_framing? framed
  obtain ⟨inner, message, innerFound⟩ := closed.framed found
  exact ⟨_, readWithin_framed_message levels found innerFound⟩

/-- The three ways in which values of a type end: with the bytes, by themselves, and with a
frame. -/
theorem takesRest_or_bare_or_framed {type : TypeRef} (has : schema.Has type) :
    schema.TakesRest type ∨ schema.wireType type ≠ .lengthDelimited ∨
      ∃ framing, schema.framing? type = some framing := by
  cases type with
  | scalar type =>
      by_cases delimited : type.wireType = .lengthDelimited
      · cases type with
        | string => exact .inl .string
        | bytes => exact .inl .bytes
        | _ => cases delimited
      · exact .inr (.inl delimited)
  | definition index =>
      obtain ⟨⟨name, message | enum | framed⟩, found⟩ := definition?_of_has has
      · exact .inl (.message found)
      · right
        left
        rw [wireType, found]
        intro same
        cases same
      · exact .inr (.inr ⟨framed.framing, framing?_of_definition? found⟩)

/-- A value says what stands in its own bytes. -/
theorem IsClosed.isExact_readWithin
    (closed : schema.IsClosed)
    (levels : Nat)
    {type : TypeRef}
    (has : schema.Has type) :
    (schema.readWithin levels type).IsExact := by
  rcases takesRest_or_bare_or_framed has with takesRest | bare | ⟨framing, framed⟩
  · exact (takesAll_readWithin levels takesRest).isExact
  · exact (isLocal_readWithin levels type bare).isExact
  · obtain ⟨content, opened⟩ := closed.readWithin_of_framing? levels framed
    rw [opened]
    exact (framing.isLocal_readPayload.bind fun payload => Reader.isLocal_within payload _).isExact

/-- A frame ends as many bytes behind its length as the length says. -/
theorem IsClosed.exists_length_of_readWithin
    (closed : schema.IsClosed)
    {levels : Nat}
    {type : TypeRef}
    {framing : Framing}
    (framed : schema.framing? type = some framing)
    {cursor after : Cursor}
    {value : Value}
    (returned : schema.readWithin levels type cursor = .ok value after) :
    ∃ length behind, framing.readLength cursor = .ok length behind ∧
      length ≤ behind.remaining ∧ after = behind.skip length := by
  obtain ⟨content, opened⟩ := closed.readWithin_of_framing? levels framed
  rw [opened] at returned
  obtain ⟨payload, middle, payloadOk, insideOk⟩ := Reader.bind_eq_ok.mp returned
  obtain ⟨-, rfl⟩ := Reader.within_eq_ok.mp insideOk
  exact Framing.exists_of_readPayload payloadOk

/-- Except for empty frames, a value takes at least one of the bytes that are there. -/
theorem IsClosed.remaining_lt_of_readWithin
    (closed : schema.IsClosed)
    {levels : Nat}
    {type : TypeRef}
    (has : schema.Has type)
    (nonempty : schema.framing? type ≠ some (.fixed 0))
    {cursor after : Cursor}
    {value : Value}
    (left : 0 < cursor.remaining)
    (returned : schema.readWithin levels type cursor = .ok value after) :
    after.remaining < cursor.remaining := by
  rcases takesRest_or_bare_or_framed has with takesRest | bare | ⟨framing, framed⟩
  · have nothing := (takesAll_readWithin levels takesRest cursor value after returned).1
    rw [Cursor.remaining, nothing]
    exact left
  · exact (isLocal_readWithin levels type bare).remaining_lt
      (needsBytes_readWithin levels type bare) returned
  · obtain ⟨content, opened⟩ := closed.readWithin_of_framing? levels framed
    rw [opened] at returned
    have needs : framing.readPayload.NeedsBytes :=
      Framing.needsBytes_readPayload fun empty => nonempty (empty ▸ framed)
    have isLocal := framing.isLocal_readPayload.bind fun payload =>
      Reader.isLocal_within payload content
    exact isLocal.remaining_lt needs.bind returned

/-! ### Decoding -/

/-- A value of a type was read from a place of some bytes up to another place. -/
structure Consumes
    (schema : Schema)
    (type : TypeRef)
    (bytes : List UInt8)
    (start stop : Nat)
    (value : Value) : Prop where
  /-- The bytes between the two places decide the value. -/
  own : (schema.read type).Exhausts ((bytes.drop start).take (stop - start)) value
  /-- Messages, text and byte strings leave nothing. -/
  whole : schema.TakesRest type → stop = bytes.length
  /-- A frame takes its length and as many bytes as the length says. -/
  frame : ∀ framing, schema.framing? type = some framing →
    ∃ length behind, start ≤ behind ∧
      framing.readLength (.within bytes start) = .ok length (.within bytes behind) ∧
        stop = behind + length
  /-- From bytes that are left, only empty frames take nothing. -/
  forward : start < bytes.length → schema.framing? type ≠ some (.fixed 0) → start < stop

/-- Decoding ends, for every type and at every place of all bytes. It ends inside of the bytes, in
the way that the rules say: with an error, or with a value that took its own bytes. -/
theorem IsClosed.read_within
    (closed : schema.IsClosed)
    {type : TypeRef}
    (has : schema.Has type)
    {bytes : List UInt8}
    {start : Nat}
    (inside : start ≤ bytes.length) :
    ∃ stop, start ≤ stop ∧ stop ≤ bytes.length ∧
      schema.Decodes 0 type (.within bytes start) (schema.read type (.within bytes start)) ∧
      ((∃ cause, schema.read type (.within bytes start) = .error cause (.within bytes stop)) ∨
        ∃ value, schema.read type (.within bytes start) = .ok value (.within bytes stop) ∧
          schema.Consumes type bytes start stop value) := by
  obtain ⟨count, enough, stopped⟩ :=
    closed.staysInside_readWithin (maxDepth + 1) has (.within bytes start)
  rw [Cursor.skip_within] at stopped
  rw [Cursor.remaining_within] at enough
  have balance : maxDepth + 1 + 0 = maxDepth + 1 := rfl
  refine ⟨start + count, by omega, by omega, closed.decodes_readWithin balance has _, ?_⟩
  cases outcome : schema.read type (.within bytes start) with
  | error cause after =>
      unfold read at outcome
      rw [outcome] at stopped
      obtain rfl : after = .within bytes (start + count) := stopped
      exact .inl ⟨cause, rfl⟩
  | ok value after =>
      unfold read at outcome
      rw [outcome] at stopped
      obtain rfl : after = .within bytes (start + count) := stopped
      refine .inr ⟨value, rfl, ?own, ?whole, ?frame, ?forward⟩
      case own =>
        obtain ⟨taken, cut, exhausts⟩ := closed.isExact_readWithin _ has _ _ _ outcome
        change bytes.drop start = taken ++ bytes.drop (start + count) at cut
        have length : taken.length = count := by
          have lengths := congrArg List.length cut
          rw [List.length_append, List.length_drop, List.length_drop] at lengths
          omega
        rw [cut, Nat.add_sub_cancel_left, List.take_left' length]
        exact exhausts
      case whole =>
        intro takesRest
        have nothing := (takesAll_readWithin _ takesRest _ _ _ outcome).1
        have length := List.drop_eq_nil_iff.mp nothing
        omega
      case frame =>
        intro framing framed
        obtain ⟨length, behind, lengthOk, bound, after⟩ :=
          closed.exists_length_of_readWithin framed outcome
        obtain ⟨before, beforeEnough, reached⟩ :=
          framing.staysInside_readLength (.within bytes start)
        rw [lengthOk, Cursor.skip_within] at reached
        obtain rfl : behind = .within bytes (start + before) := reached
        rw [Cursor.skip_within] at after
        exact ⟨length, start + before, by omega, lengthOk, congrArg Cursor.offset after⟩
      case forward =>
        intro left nonempty
        have remaining : 0 < (Cursor.within bytes start).remaining := by
          rw [Cursor.remaining_within]
          omega
        have moved := closed.remaining_lt_of_readWithin has nonempty remaining outcome
        rw [Cursor.remaining_within, Cursor.remaining_within] at moved
        omega

/-- Trees inside of trees, and trees behind their lengths. -/
def hedgeSchema : Schema :=
  ⟨[⟨"Tree", .message
      ⟨[⟨"rings", 1, .scalar .sint32, .repeated, true⟩,
        ⟨"crown", 2, .definition 0, .optional, false⟩], []⟩⟩,
    ⟨"Trunk", .framed ⟨0, .prefixed .uint32⟩⟩]⟩

/-- A frame of six bytes, behind one other byte and in front of another: a crown with two rings. -/
theorem read_within_hedge :
    hedgeSchema.Decodes 0 (.definition 1) (.within [255, 6, 18, 4, 10, 2, 5, 6, 7] 1)
      (.ok (.object "Tree" [("crown", .object "Tree" [("rings", .array [.int32 (-3), .int32 3])])])
        (.within [255, 6, 18, 4, 10, 2, 5, 6, 7] 8)) ∧
    hedgeSchema.Consumes (.definition 1) [255, 6, 18, 4, 10, 2, 5, 6, 7] 1 8
      (.object "Tree" [("crown", .object "Tree" [("rings", .array [.int32 (-3), .int32 3])])]) := by
  have closed : hedgeSchema.IsClosed := by decide
  have has : hedgeSchema.Has (.definition 1) := by decide
  have outcome : hedgeSchema.read (.definition 1) (.within [255, 6, 18, 4, 10, 2, 5, 6, 7] 1) =
      .ok (.object "Tree" [("crown", .object "Tree" [("rings", .array [.int32 (-3), .int32 3])])])
        (.within [255, 6, 18, 4, 10, 2, 5, 6, 7] 8) := rfl
  have inside : 1 ≤ [255, 6, 18, 4, 10, 2, 5, 6, (7 : UInt8)].length := by decide
  obtain ⟨stop, -, -, derivation, ends⟩ := closed.read_within has inside
  rw [outcome] at derivation ends
  obtain ⟨_, ⟨⟩⟩ | ⟨value, returned, consumes⟩ := ends
  obtain ⟨rfl, after⟩ := EStateM.Result.ok.inj returned
  obtain rfl : 8 = stop := congrArg Cursor.offset after
  exact ⟨derivation, consumes⟩

end Schema

end ProtoWire
