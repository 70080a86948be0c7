import ProtoWire.Proofs.Codec.Records
import ProtoWire.Proofs.Schema.WellFormed
import ProtoWire.Proofs.Wire.Motion

/-!
Contract: what decoding is, as rules without any bound. A derivation is a run that ends: it opens
every frame that it meets, repeats as long as bytes are left, and counts nothing but the nested
messages. The reader of a schema whose references lead somewhere follows these rules, so that it
ends because the rules say so, and not because one of its bounds is used up.

Owns:
- the schemas whose references lead somewhere;
- the rules for types, for runs of records and of elements, and for one record;
- the derivation of what the reader returns.

Does not own: how far the reader moves.
-/

namespace ProtoWire

open Reader (Ending)

/-- Fields refer to definitions, and frames contain messages. -/
def DefinitionKind.IsClosed (schema : Schema) : DefinitionKind → Prop
  | .message type => ∀ field ∈ type.fields, schema.Has field.type
  | .enum _ => True
  | .framed type => ((schema.definition? type.inner).bind Definition.message?).isSome = true

instance (schema : Schema) (kind : DefinitionKind) : Decidable (kind.IsClosed schema) := by
  cases kind <;> unfold DefinitionKind.IsClosed <;> infer_instance

namespace Schema

/-- All references lead somewhere. Nothing keeps messages from containing themselves. -/
def IsClosed (schema : Schema) : Prop :=
  ∀ definition ∈ schema.definitions, definition.kind.IsClosed schema

instance (schema : Schema) : Decidable schema.IsClosed := by
  unfold IsClosed
  infer_instance

theorem IsClosed.message
    {schema : Schema}
    (closed : schema.IsClosed)
    {index : Nat}
    {name : String}
    {message : MessageType}
    (found : schema.definition? index = some ⟨name, .message message⟩) :
    ∀ field ∈ message.fields, schema.Has field.type :=
  closed _ (mem_of_definition? found)

theorem IsClosed.framed
    {schema : Schema}
    (closed : schema.IsClosed)
    {index : Nat}
    {name : String}
    {type : FramedType}
    (found : schema.definition? index = some ⟨name, .framed type⟩) :
    ∃ inner message, schema.definition? type.inner = some ⟨inner, .message message⟩ := by
  have contains := closed _ (mem_of_definition? found)
  obtain ⟨message, isMessage⟩ := Option.isSome_iff_exists.mp contains
  obtain ⟨⟨inner, kind⟩, innerFound, same⟩ := Option.bind_eq_some_iff.mp isMessage
  cases kind with
  | message type =>
      cases same
      exact ⟨inner, message, innerFound⟩
  | enum type => cases same
  | framed type => cases same

/-! ### Rules -/

mutual

/-- Decoding a value below `depth` messages, from some position, ends in this way. -/
inductive Decodes (schema : Schema) : Nat → TypeRef → Cursor → Ending Value → Prop where
  | scalar {depth : Nat} {type : Scalar} {cursor : Cursor} :
      Decodes schema depth (.scalar type) cursor (type.read cursor)
  | enum {depth index : Nat} {name : String} {enum : EnumType} {cursor : Cursor}
      (found : schema.definition? index = some ⟨name, .enum enum⟩) :
      Decodes schema depth (.definition index) cursor (enum.read name cursor)
  | message {depth index : Nat} {name : String} {message : MessageType} {cursor : Cursor}
      {ending : Ending (FieldMap Value)}
      (found : schema.definition? index = some ⟨name, .message message⟩)
      (shallow : depth ≤ maxDepth)
      (records : DecodesRecords schema depth name message [] cursor ending) :
      Decodes schema depth (.definition index) cursor (Ending.map (.object name) ending)
  | tooDeep {depth index : Nat} {name : String} {message : MessageType} {cursor : Cursor}
      (found : schema.definition? index = some ⟨name, .message message⟩)
      (deep : maxDepth < depth) :
      Decodes schema depth (.definition index) cursor
        (.error (.recursionLimitExceeded maxDepth) cursor)
  | frame {depth index : Nat} {name : String} {type : FramedType} {cursor after : Cursor}
      {payload : List UInt8} {ending : Ending Value}
      (found : schema.definition? index = some ⟨name, .framed type⟩)
      (cut : type.framing.readPayload cursor = .ok payload after)
      (content : Decodes schema depth (.definition type.inner) (Cursor.ofBytes payload) ending) :
      Decodes schema depth (.definition index) cursor (Ending.moveTo after ending)
  | badFrame {depth index : Nat} {name : String} {type : FramedType} {cursor after : Cursor}
      {cause : WireError}
      (found : schema.definition? index = some ⟨name, .framed type⟩)
      (failed : type.framing.readPayload cursor = .error cause after) :
      Decodes schema depth (.definition index) cursor (.error cause after)

/-- The records of a message, up to the end of the bytes, on top of some fields. -/
inductive DecodesRecords (schema : Schema) :
    Nat → String → MessageType → FieldMap Value → Cursor → Ending (FieldMap Value) → Prop where
  | finished {depth : Nat} {name : String} {message : MessageType} {fields : FieldMap Value}
      {cursor : Cursor}
      (atEnd : cursor.rest = []) :
      DecodesRecords schema depth name message fields cursor (.ok fields cursor)
  | record {depth : Nat} {name : String} {message : MessageType} {fields : FieldMap Value}
      {cursor middle : Cursor} {update : Update} {ending : Ending (FieldMap Value)}
      (left : cursor.rest ≠ [])
      (first : DecodesRecord schema depth name message cursor (.ok update middle))
      (others : DecodesRecords schema depth name message (update.apply fields) middle ending) :
      DecodesRecords schema depth name message fields cursor ending
  | refused {depth : Nat} {name : String} {message : MessageType} {fields : FieldMap Value}
      {cursor after : Cursor} {cause : WireError}
      (left : cursor.rest ≠ [])
      (first : DecodesRecord schema depth name message cursor (.error cause after)) :
      DecodesRecords schema depth name message fields cursor (.error cause after)

/-- One record of a message. -/
inductive DecodesRecord (schema : Schema) :
    Nat → String → MessageType → Cursor → Ending Update → Prop where
  | badKey {depth : Nat} {name : String} {message : MessageType} {cursor after : Cursor}
      {cause : WireError}
      (failed : Reader.key cursor = .error cause after) :
      DecodesRecord schema depth name message cursor (.error cause after)
  | unknown {depth tag : Nat} {name : String} {message : MessageType} {cursor middle : Cursor}
      {found : WireType}
      (key : Reader.key cursor = .ok (tag, found) middle)
      (undeclared : message.fieldByTag? tag = none) :
      DecodesRecord schema depth name message cursor
        (Ending.map (fun _ => .skip) (Reader.skip found middle))
  | known {depth tag : Nat} {name : String} {message : MessageType} {cursor middle : Cursor}
      {found : WireType} {field : Field} {ending : Ending Update}
      (key : Reader.key cursor = .ok (tag, found) middle)
      (declared : message.fieldByTag? tag = some field)
      (payload : DecodesField schema depth name field found middle ending) :
      DecodesRecord schema depth name message cursor ending

/-- What stands behind the key of a field. -/
inductive DecodesField (schema : Schema) :
    Nat → String → Field → WireType → Cursor → Ending Update → Prop where
  | run {depth : Nat} {name : String} {field : Field} {cursor after : Cursor}
      {bytes : List UInt8} {ending : Ending (List Value)}
      (repeated : field.isRepeated = true)
      (bare : schema.wireType field.type ≠ .lengthDelimited)
      (cut : Reader.lengthDelimited cursor = .ok bytes after)
      (elements : DecodesElements schema depth field.type (Cursor.ofBytes bytes) ending) :
      DecodesField schema depth name field .lengthDelimited cursor
        (Ending.moveTo after (Ending.map (.extend field.name) ending))
  | delimited {depth : Nat} {name : String} {field : Field} {cursor after : Cursor}
      {payload : List UInt8} {ending : Ending Value}
      (delimited : schema.wireType field.type = .lengthDelimited)
      (cut : Reader.lengthDelimited cursor = .ok payload after)
      (value : Decodes schema (depth + 1) field.type (Cursor.ofBytes payload) ending) :
      DecodesField schema depth name field .lengthDelimited cursor
        (Ending.moveTo after (Ending.map field.update ending))
  | badLength {depth : Nat} {name : String} {field : Field} {cursor after : Cursor}
      {cause : WireError}
      (reads : field.isRepeated = true ∨ schema.wireType field.type = .lengthDelimited)
      (failed : Reader.lengthDelimited cursor = .error cause after) :
      DecodesField schema depth name field .lengthDelimited cursor (.error cause after)
  | bare {depth : Nat} {name : String} {field : Field} {cursor : Cursor} {ending : Ending Value}
      (bare : schema.wireType field.type ≠ .lengthDelimited)
      (value : Decodes schema depth field.type cursor ending) :
      DecodesField schema depth name field (schema.wireType field.type) cursor
        (Ending.map field.update ending)
  | mismatch {depth : Nat} {name : String} {field : Field} {found : WireType} {cursor : Cursor}
      (different : found ≠ schema.wireType field.type)
      (noRun : field.isRepeated = false ∨ found ≠ .lengthDelimited) :
      DecodesField schema depth name field found cursor
        (.error (.unexpectedWireType (name ++ "." ++ field.name) (schema.wireType field.type) found)
          cursor)

/-- The elements of a run, up to the end of the bytes. -/
inductive DecodesElements (schema : Schema) :
    Nat → TypeRef → Cursor → Ending (List Value) → Prop where
  | finished {depth : Nat} {type : TypeRef} {cursor : Cursor}
      (atEnd : cursor.rest = []) :
      DecodesElements schema depth type cursor (.ok [] cursor)
  | element {depth : Nat} {type : TypeRef} {cursor middle : Cursor} {value : Value}
      {ending : Ending (List Value)}
      (left : cursor.rest ≠ [])
      (first : Decodes schema depth type cursor (.ok value middle))
      (others : DecodesElements schema depth type middle ending) :
      DecodesElements schema depth type cursor (Ending.map (value :: ·) ending)
  | refused {depth : Nat} {type : TypeRef} {cursor after : Cursor} {cause : WireError}
      (left : cursor.rest ≠ [])
      (first : Decodes schema depth type cursor (.error cause after)) :
      DecodesElements schema depth type cursor (.error cause after)

end

variable {schema : Schema}

/-! ### Self-delimiting values -/

theorem needsBytes_readWithin
    (levels : Nat)
    (type : TypeRef)
    (bare : schema.wireType type ≠ .lengthDelimited) :
    (schema.readWithin levels type).NeedsBytes := by
  cases type with
  | scalar type =>
      rw [readWithin_scalar]
      exact type.needsBytes_read bare
  | definition index =>
      obtain ⟨name, enum, found⟩ := exists_enum_of_bare bare
      rw [readWithin_enum levels found, EnumType.read_eq]
      exact (Reader.needsBytes_varint.map _).map _

/-- The count of levels does not matter for a value that contains no messages. -/
private theorem decodes_bare
    (depth levels : Nat)
    {type : TypeRef}
    (bare : schema.wireType type ≠ .lengthDelimited)
    (cursor : Cursor) :
    schema.Decodes depth type cursor (schema.readWithin levels type cursor) := by
  cases type with
  | scalar type =>
      rw [readWithin_scalar]
      exact .scalar
  | definition index =>
      obtain ⟨name, enum, found⟩ := exists_enum_of_bare bare
      rw [readWithin_enum levels found]
      exact .enum found

private theorem decodesElements
    (depth levels : Nat)
    {type : TypeRef}
    (bare : schema.wireType type ≠ .lengthDelimited)
    (cursor : Cursor) :
    schema.DecodesElements depth type cursor
      (Reader.many (schema.readWithin levels type) cursor) := by
  have isLocal := isLocal_readWithin levels type bare
  have needs := needsBytes_readWithin levels type bare
  refine Reader.many_induction isLocal needs
    (motive := fun cursor ending => schema.DecodesElements depth type cursor ending)
    ?finished ?refused ?more cursor
  case finished => exact fun _ atEnd => .finished atEnd
  case refused =>
    intro cursor cause after left outcome
    have first := decodes_bare depth levels bare cursor
    rw [outcome] at first
    exact .refused left first
  case more =>
    intro cursor value middle ending left outcome others
    have first := decodes_bare depth levels bare cursor
    rw [outcome] at first
    exact .element left first others

/-! ### Records -/

section Records

variable {depth levels : Nat}

/-- What a field holds behind a length is decoded one level further down. -/
private theorem decodesField
    {field : Field}
    (has : schema.Has field.type)
    (content : ∀ type, schema.Has type → ∀ cursor,
      schema.Decodes (depth + 1) type cursor (schema.readWithin levels type cursor))
    (name : String)
    (found : WireType)
    (cursor : Cursor) :
    schema.DecodesField depth name field found cursor
      (schema.readField (schema.readWithin levels) name field found cursor) := by
  refine readField_cases
    (motive := fun found reader => schema.DecodesField depth name field found cursor
      (reader cursor))
    ?run ?delimited ?bare ?mismatch found
  case run =>
    intro repeated bare
    cases cut : Reader.lengthDelimited cursor with
    | error cause after =>
        rw [Reader.bind_of_error cut]
        exact .badLength (.inl repeated) cut
    | ok bytes after =>
        rw [Reader.bind_of_ok cut, bind_pure_comp, Reader.map_eq, Reader.within_eq,
          Ending.map_moveTo]
        exact .run repeated bare cut (decodesElements depth levels bare _)
  case delimited =>
    intro delimited
    cases cut : Reader.lengthDelimited cursor with
    | error cause after =>
        rw [Reader.bind_of_error cut]
        exact .badLength (.inr delimited) cut
    | ok payload after =>
        rw [Reader.bind_of_ok cut, bind_pure_comp, Reader.map_eq, Reader.within_eq,
          Ending.map_moveTo]
        exact .delimited delimited cut (content field.type has _)
  case bare =>
    intro bare
    rw [bind_pure_comp, Reader.map_eq]
    exact .bare bare (decodes_bare depth levels bare cursor)
  case mismatch => exact fun found different noRun => .mismatch different noRun

variable {message : MessageType}

private theorem decodesRecord
    (has : ∀ field ∈ message.fields, schema.Has field.type)
    (content : ∀ type, schema.Has type → ∀ cursor,
      schema.Decodes (depth + 1) type cursor (schema.readWithin levels type cursor))
    (name : String)
    (cursor : Cursor) :
    schema.DecodesRecord depth name message cursor
      (schema.readRecord (schema.readWithin levels) name message cursor) := by
  unfold readRecord
  cases key : Reader.key cursor with
  | error cause after =>
      rw [Reader.bind_of_error key]
      exact .badKey key
  | ok result middle =>
      obtain ⟨tag, found⟩ := result
      rw [Reader.bind_of_ok key]
      cases declared : message.fieldByTag? tag with
      | none =>
          simp only [declared]
          rw [bind_pure_comp, Reader.map_eq]
          exact .unknown key declared
      | some field =>
          simp only [declared]
          have member := (MessageType.mem_of_fieldByTag? declared).1
          exact .known key declared (decodesField (has field member) content name found middle)

private theorem decodesRecords
    (has : ∀ field ∈ message.fields, schema.Has field.type)
    (content : ∀ type, schema.Has type → ∀ cursor,
      schema.Decodes (depth + 1) type cursor (schema.readWithin levels type cursor))
    (name : String)
    (fields : FieldMap Value)
    (cursor : Cursor) :
    schema.DecodesRecords depth name message fields cursor
      (Ending.map (fun updates => updates.foldl Update.apply fields)
        (Reader.many (schema.readRecord (schema.readWithin levels) name message) cursor)) := by
  have isLocal : (schema.readRecord (schema.readWithin levels) name message).IsLocal :=
    isLocal_readRecord levels name message
  have needs : (schema.readRecord (schema.readWithin levels) name message).NeedsBytes :=
    needsBytes_readRecord _ name message
  -- Each record finds the fields that the records in front of it have left.
  refine Reader.many_induction isLocal needs
    (motive := fun cursor ending => ∀ fields, schema.DecodesRecords depth name message fields cursor
      (Ending.map (fun updates => updates.foldl Update.apply fields) ending))
    ?finished ?refused ?more cursor fields
  case finished => exact fun _ atEnd _ => .finished atEnd
  case refused =>
    intro cursor cause after left outcome fields
    have first := decodesRecord has content name cursor
    rw [outcome] at first
    exact .refused left first
  case more =>
    intro cursor update middle ending left outcome others fields
    have first := decodesRecord has content name cursor
    rw [outcome] at first
    rw [Ending.map_map]
    exact .record left first (others (update.apply fields))

end Records

/-! ### Types -/

/-- A message is too deep exactly when no level is left for it. -/
private theorem decodes_message
    (closed : schema.IsClosed)
    {levels depth index : Nat}
    {name : String}
    {message : MessageType}
    (found : schema.definition? index = some ⟨name, .message message⟩)
    (balance : levels + depth = maxDepth + 1)
    (content : ∀ fewer, fewer + 1 = levels → ∀ type, schema.Has type → ∀ cursor,
      schema.Decodes (depth + 1) type cursor (schema.readWithin fewer type cursor))
    (cursor : Cursor) :
    schema.Decodes depth (.definition index) cursor
      (schema.readWithin levels (.definition index) cursor) := by
  rw [readWithin_message levels found]
  cases levels with
  | zero =>
      have deep : maxDepth < depth := by omega
      exact .tooDeep found deep
  | succ fewer =>
      have shallow : depth ≤ maxDepth := by omega
      have has := closed.message found
      have records := decodesRecords has (content fewer rfl) name [] cursor
      have whole := Decodes.message found shallow records
      rw [Ending.map_map] at whole
      change schema.Decodes depth (.definition index) cursor
        (((fun updates => Value.object name (updates.foldl Update.apply [])) <$> Reader.many
          (schema.readRecord (schema.readWithin fewer) name message) : Reader Value) cursor)
      rw [Reader.map_eq]
      exact whole

/-- What the reader returns is derived from the rules, for every type and at every position. -/
theorem IsClosed.decodes_readWithin
    (closed : schema.IsClosed)
    {levels depth : Nat}
    (balance : levels + depth = maxDepth + 1)
    {type : TypeRef}
    (has : schema.Has type)
    (cursor : Cursor) :
    schema.Decodes depth type cursor (schema.readWithin levels type cursor) := by
  -- The levels fall from message to message, and frames do not nest.
  induction levels using Nat.strongRecOn generalizing depth type cursor with
  | ind levels inductionHypothesis =>
      have content : ∀ fewer, fewer + 1 = levels → ∀ type, schema.Has type → ∀ cursor,
          schema.Decodes (depth + 1) type cursor (schema.readWithin fewer type cursor) :=
        fun fewer below _ inside cursor =>
          inductionHypothesis fewer (by omega) (by omega) inside cursor
      cases type with
      | scalar type =>
          rw [readWithin_scalar]
          exact .scalar
      | definition index =>
          obtain ⟨⟨name, message | enum | framed⟩, found⟩ := definition?_of_has has
          · exact decodes_message closed found balance content cursor
          · rw [readWithin_enum levels found]
            exact .enum found
          · obtain ⟨inner, message, innerFound⟩ := closed.framed found
            rw [readWithin_framed_message levels found innerFound]
            cases cut : framed.framing.readPayload cursor with
            | error cause after =>
                rw [Reader.bind_of_error cut]
                exact .badFrame found cut
            | ok payload after =>
                rw [Reader.bind_of_ok cut, Reader.within_eq]
                exact .frame found cut (decodes_message closed innerFound balance content _)

end Schema

end ProtoWire
