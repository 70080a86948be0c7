import ProtoWire.Proofs.Codec.Reading
import ProtoWire.Proofs.Schema.Growth
import ProtoWire.Proofs.Schema.Lookup
import ProtoWire.Proofs.Wire.Motion

/-!
Contract: what is read as a type of a schema stays the same when definitions are appended to the
schema. The types of fields lead to earlier definitions only, so that no value can reach the
appended ones.

Owns:
- the agreement of two schemas on the fields of a message, and what follows for its reader;
- the readers of all types in a schema with more definitions;
- the payloads of frames around a message that are registered last.

Does not own: which definitions are appended.
-/

namespace ProtoWire

namespace Schema

variable {schema other : Schema}

/-! ### Messages -/

section Agreement

variable
  {readValue readOther : TypeRef → Reader Value}
  {messageName : String}

/-- A record of a field depends on the type of the field only. -/
theorem readField_congr
    {field : Field}
    (wire : other.wireType field.type = schema.wireType field.type)
    (values : readOther field.type = readValue field.type)
    (found : WireType) :
    other.readField readOther messageName field found =
      schema.readField readValue messageName field found := by
  unfold readField
  rw [wire, values]

/-- A message depends on the types of its fields only. -/
theorem readMessage_congr
    {message : MessageType}
    (agree : ∀ field ∈ message.fields,
      other.wireType field.type = schema.wireType field.type ∧
        readOther field.type = readValue field.type) :
    other.readMessage readOther messageName message =
      schema.readMessage readValue messageName message := by
  have records : other.readRecord readOther messageName message =
      schema.readRecord readValue messageName message := by
    unfold readRecord
    refine congrArg (Reader.key >>= ·) (funext fun (tag, found) => ?_)
    cases known : message.fieldByTag? tag with
    | none => simp only [known]
    | some field =>
        obtain ⟨member, -⟩ := MessageType.mem_of_fieldByTag? known
        obtain ⟨wire, values⟩ := agree field member
        simp only [known]
        exact readField_congr wire values found
  unfold readMessage
  rw [records]

end Agreement

/-! ### Appended definitions -/

/-- The schema with more definitions at its end. -/
def append (schema : Schema) (added : List Definition) : Schema :=
  ⟨schema.definitions ++ added⟩

theorem wireType_append
    {type : TypeRef}
    (legal : schema.IsFieldType type)
    (added : List Definition) :
    (schema.append added).wireType type = schema.wireType type := by
  cases type with
  | scalar type => rfl
  | definition index =>
      obtain ⟨definition, found, -⟩ := legal
      have again : (schema.append added).definition? index = some definition :=
        definition?_append found added
      simp only [wireType, found, again]

/-- A type is read alike if the messages of the schema are. -/
private theorem readWithin_append_of_readBody
    {added : List Definition}
    {levels : Nat}
    (bodies : ∀ name message, ⟨name, .message message⟩ ∈ schema.definitions →
      (schema.append added).readBody levels name message = schema.readBody levels name message)
    {type : TypeRef}
    (legal : schema.IsFieldType type) :
    (schema.append added).readWithin levels type = schema.readWithin levels type := by
  cases type with
  | scalar type => rw [readWithin_scalar, readWithin_scalar]
  | definition index =>
      obtain ⟨⟨name, kind⟩, found, unframed⟩ := legal
      have again : (schema.append added).definition? index = some ⟨name, kind⟩ :=
        definition?_append found added
      cases kind with
      | message message =>
          rw [readWithin_message levels again, readWithin_message levels found]
          exact bodies name message (mem_of_definition? found)
      | enum enum => rw [readWithin_enum levels again, readWithin_enum levels found]
      | framed type => exact absurd rfl (unframed type)

/-- No field of a schema leads to a definition that is appended. -/
theorem WellFormed.readWithin_append
    (wellFormed : schema.WellFormed)
    (added : List Definition)
    (levels : Nat)
    {type : TypeRef}
    (legal : schema.IsFieldType type) :
    (schema.append added).readWithin levels type = schema.readWithin levels type := by
  induction levels generalizing type with
  | zero =>
      refine readWithin_append_of_readBody (fun name message _ => ?_) legal
      rw [readBody, readBody]
  | succ levels inductionHypothesis =>
      -- Fields are read with one level less, and their types lead into the schema again.
      refine readWithin_append_of_readBody (fun name message member => ?_) legal
      refine readMessage_congr fun field inside => ?_
      have type := ((wellFormed.messages name message member).fields field inside).type
      exact ⟨wireType_append type added, inductionHypothesis type⟩

/-! ### Frames that are registered last -/

section Registered

variable
  {index : Nat}
  {name inner : String}
  {message : MessageType}
  {framing : Framing}
  {extended : Schema}

private theorem read_register
    (wellFormed : schema.WellFormed)
    (found : schema.definition? index = some ⟨inner, .message message⟩)
    (registered : schema.register name (.framed ⟨index, framing⟩) = .ok extended) :
    extended.read (.definition schema.definitions.length) = (do
      let payload ← framing.readPayload
      Reader.within payload (schema.read (.definition index))) := by
  obtain ⟨-, place⟩ := resolve_of_register registered
  obtain ⟨-, -, rfl⟩ := register_eq_ok.mp registered
  have legal : schema.IsFieldType (.definition index) := ⟨_, found, nofun⟩
  have same := wellFormed.readWithin_append [⟨name, .framed ⟨index, framing⟩⟩] (maxDepth + 1) legal
  rw [read, readWithin_framed_message (maxDepth + 1) place (definition?_append found _)]
  rw [read, ← same]
  rfl

/-- What a frame holds is decoded as the message on its own, and the frame is passed. -/
theorem WellFormed.decode_register
    (wellFormed : schema.WellFormed)
    (found : schema.definition? index = some ⟨inner, .message message⟩)
    (registered : schema.register name (.framed ⟨index, framing⟩) = .ok extended)
    {content payload : List UInt8}
    {after : Cursor}
    (opened : framing.readPayload (Cursor.ofBytes content) = .ok payload after) :
    extended.decode name content =
      (fun result => (result.1, after.offset)) <$> schema.decode inner payload := by
  have resolved := wellFormed.resolve_of_definition? found
  have whole := read_register wellFormed found registered
  rw [decode, decode, (resolve_of_register registered).1, resolved, Outcome.ok_bind,
    Outcome.ok_bind, whole, Reader.bind_of_ok opened, Reader.within]
  cases schema.read (.definition index) (Cursor.ofBytes payload) <;> rfl

/-- A frame that cannot be opened is not decoded. -/
theorem WellFormed.decode_register_error
    (wellFormed : schema.WellFormed)
    (found : schema.definition? index = some ⟨inner, .message message⟩)
    (registered : schema.register name (.framed ⟨index, framing⟩) = .ok extended)
    {content : List UInt8}
    {cause : WireError}
    {after : Cursor}
    (failed : framing.readPayload (Cursor.ofBytes content) = .error cause after) :
    extended.decode name content = .error cause := by
  have whole := read_register wellFormed found registered
  rw [decode, (resolve_of_register registered).1, Outcome.ok_bind, whole,
    Reader.bind_of_error failed]

end Registered

end Schema

end ProtoWire
