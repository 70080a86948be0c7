import ProtoWire.Proofs.Codec.Admission
import ProtoWire.Proofs.Codec.Restriction
import ProtoWire.Proofs.Schema.Narrowing
import ProtoWire.Proofs.Wire.Following

/-!
Contract: bytes that a newer schema reads are read by an older one as well, up to the same byte.
The fields that the older schema lacks are missing from its values, and everything else is the same.

Owns:
- that passing over the payload of a field takes what reading the field takes;
- reading with the older schema, for types of any kind at any depth.

Does not own: bytes that the newer schema refuses.
-/

namespace ProtoWire

namespace Schema

variable {schema : Schema}

/-! ### Payloads -/

/-- Whatever a record of a field holds, passing over its payload takes what reading it takes. -/
theorem takes_readField
    {readValue : TypeRef → Reader Value}
    (takes : ∀ type, schema.wireType type ≠ .lengthDelimited →
      (readValue type).Takes (schema.wireType type))
    (messageName : String)
    (field : Field)
    (found : WireType) :
    (schema.readField readValue messageName field found).Takes found := by
  refine readField_cases (motive := fun found reader => reader.Takes found)
    ?run ?delimited ?bare ?mismatch found
  case run => exact fun _ _ => Reader.takes_lengthDelimited _ (Update.extend field.name)
  case delimited => exact fun _ => Reader.takes_lengthDelimited _ field.update
  case bare => exact fun bare => (takes field.type bare).bind_pure field.update
  case mismatch => exact fun _ _ _ => Reader.follows_throw _ _ _

theorem takes_readWithin
    (levels : Nat)
    (type : TypeRef)
    (bare : schema.wireType type ≠ .lengthDelimited) :
    (schema.readWithin levels type).Takes (schema.wireType type) := by
  cases type with
  | scalar type =>
      rw [readWithin_scalar]
      exact type.takes_read bare
  | definition index =>
      obtain ⟨name, enum, found⟩ := exists_enum_of_bare bare
      have varint : schema.wireType (.definition index) = .varint := by
        rw [wireType, found]
        rfl
      rw [readWithin_enum levels found, varint, EnumType.read_eq]
      exact (Reader.takes_varint.map _).map _

/-- What is read as a message is an object. -/
private theorem yields_object
    (levels : Nat)
    {index : Nat}
    {name : String}
    {message : MessageType}
    (found : schema.definition? index = some ⟨name, .message message⟩) :
    (schema.readWithin levels (.definition index)).Yields fun value =>
      ∃ fields, value = .object name fields := by
  rw [readWithin_message levels found]
  cases levels with
  | zero => exact Reader.yields_throw _
  | succ fewer =>
      apply Reader.yields_bind
      exact fun updates => Reader.yields_pure ⟨_, rfl⟩

/-! ### Reading with the older schema -/

/-- Nothing is left of the records of a field that is dropped. -/
private theorem yields_readField_of_dropped
    {old new : Schema}
    {readNew : TypeRef → Reader Value}
    {few : MessageType}
    {field : Field}
    (unknown : few.fieldByName? field.name = none)
    (messageName : String)
    (found : WireType) :
    (new.readField readNew messageName field found).Yields fun update =>
      old.restrictUpdate few update = .skip := by
  refine readField_cases
    (motive := fun _ reader => reader.Yields fun update => old.restrictUpdate few update = .skip)
    ?run ?delimited ?bare ?mismatch found
  case run =>
    intro _ _
    apply Reader.yields_bind
    intro run
    apply Reader.yields_bind
    intro values
    apply Reader.yields_pure
    simp only [restrictUpdate, unknown]
  case delimited =>
    intro _
    apply Reader.yields_bind
    intro payload
    apply Reader.yields_bind
    exact fun value => Reader.yields_pure (restrictUpdate_of_none unknown value)
  case bare =>
    intro _
    apply Reader.yields_bind
    exact fun value => Reader.yields_pure (restrictUpdate_of_none unknown value)
  case mismatch => exact fun _ _ _ => Reader.yields_throw _

section Older

variable
  {old new : Schema}
  (narrows : old.Narrows new)

include narrows

section Records

variable
  {readOld readNew : TypeRef → Reader Value}
  (follows : ∀ type, (readOld type).Follows (old.restrict type) (readNew type))

include follows

/-- A record of a field that is kept is read by both schemas. -/
theorem follows_readField
    {few : MessageType}
    {field : Field}
    (known : few.fieldByName? field.name = some field)
    (messageName : String)
    (found : WireType) :
    (old.readField readOld messageName field found).Follows (old.restrictUpdate few)
      (new.readField readNew messageName field found) := by
  have sameType := narrows.wireType field.type
  refine readField_cases
    (motive := fun found reader =>
      (old.readField readOld messageName field found).Follows (old.restrictUpdate few) reader)
    ?run ?delimited ?bare ?mismatch found
  case run =>
    intro repeated bare
    rw [← sameType] at bare
    rw [readField_run repeated bare]
    apply Reader.follows_bind
    intro run
    refine ((follows field.type).many.within run).bind fun values => Reader.follows_pure ?_
    simp only [restrictUpdate, known]
  case delimited =>
    intro delimited
    rw [← sameType] at delimited
    rw [readField_delimited delimited]
    apply Reader.follows_bind
    intro payload
    refine ((follows field.type).within payload).bind fun value => Reader.follows_pure ?_
    exact restrictUpdate_of_some known value
  case bare =>
    intro bare
    rw [← sameType] at bare ⊢
    rw [readField_bare bare]
    refine (follows field.type).bind fun value => Reader.follows_pure ?_
    exact restrictUpdate_of_some known value
  case mismatch => exact fun _ _ _ => Reader.follows_throw _ _ _

/-- A record of a message is read by both schemas, and one of a field that is dropped is passed
over. -/
theorem follows_readRecord
    (takes : ∀ type, new.wireType type ≠ .lengthDelimited →
      (readNew type).Takes (new.wireType type))
    {few many : MessageType}
    (part : few.fields.Sublist many.fields)
    (tags : (many.fields.map Field.tag).Nodup)
    (names : (many.fields.map Field.name).Nodup)
    (messageName : String) :
    (old.readRecord readOld messageName few).Follows (old.restrictUpdate few)
      (new.readRecord readNew messageName many) := by
  apply Reader.follows_bind
  rintro ⟨tag, found⟩
  cases declared : many.fieldByTag? tag with
  | none =>
      simp only [declared, MessageType.fieldByTag?_of_unknown part declared]
      apply Reader.follows_bind
      exact fun _ => Reader.follows_pure rfl
  | some field =>
      obtain ⟨member, rfl⟩ := MessageType.mem_of_fieldByTag? declared
      by_cases kept : field ∈ few.fields
      · simp only [declared, MessageType.fieldByTag?_of_sublist part tags kept]
        have known := MessageType.fieldByName?_of_sublist part names kept
        exact follows_readField narrows follows known messageName found
      · -- The older schema passes over what the newer one reads.
        simp only [declared, MessageType.fieldByTag?_of_dropped part tags member kept]
        have unknown := MessageType.fieldByName?_of_dropped part names member kept
        exact (takes_readField takes messageName field found).follows_skip
          (yields_readField_of_dropped unknown messageName found)

end Records

variable (distinct : new.HasDistinctFields)

include distinct

private theorem follows_readBody
    {levels index : Nat}
    {name : String}
    {many : MessageType}
    (found : new.definition? index = some ⟨name, .message many⟩)
    (follows : ∀ fewer, levels = fewer + 1 → ∀ type,
      (old.readWithin fewer type).Follows (old.restrict type) (new.readWithin fewer type)) :
    (old.readWithin levels (.definition index)).Follows (old.restrict (.definition index))
      (new.readWithin levels (.definition index)) := by
  obtain ⟨few, kept, part⟩ := narrows.definition?_message found
  rw [readWithin_message levels found, readWithin_message levels kept]
  cases levels with
  | zero => exact Reader.follows_throw _ _ _
  | succ fewer =>
      have member := mem_of_definition? found
      have records :=
        follows_readRecord narrows (follows fewer rfl) (takes_readWithin fewer) part
          (distinct.tags name many member) (distinct.names name many member) name
      refine records.many.bind fun updates => Reader.follows_pure ?_
      rw [restrict_message kept, restrictFields_foldl, restrictFields]

variable (sound : new.HasSoundFrames)

include sound

/-- Whatever the newer schema reads as a type, the older one reads from the same bytes, without
the fields that it lacks. -/
theorem follows_readWithin (levels : Nat) (type : TypeRef) :
    (old.readWithin levels type).Follows (old.restrict type) (new.readWithin levels type) := by
  induction levels using Nat.strongRecOn generalizing type with
  | _ levels inductionHypothesis =>
      have follows (fewer : Nat) (same : levels = fewer + 1) (type : TypeRef) :=
        inductionHypothesis fewer (by omega) type
      cases type with
      | scalar type =>
          rw [readWithin_scalar, readWithin_scalar]
          apply Reader.follows_self
          intro cursor value after returned
          obtain ⟨bytes, written⟩ := type.yields_encodable cursor value after returned
          exact restrict_leaf _ (Scalar.isLeaf_of_encode written)
      | definition index =>
          rcases found : new.definition? index with _ | ⟨name, message | enum | framed⟩
          · rw [readWithin_missing levels found]
            exact Reader.follows_throw _ _ _
          · exact follows_readBody narrows distinct found follows
          · have kept := narrows.definition?_eq found nofun
            rw [readWithin_enum levels found, readWithin_enum levels kept]
            apply Reader.follows_self
            intro cursor value after returned
            obtain ⟨number, rfl⟩ := enum.yields_valueOf name cursor value after returned
            exact restrict_leaf _ (enum.isLeaf_valueOf name number)
          · -- Both frames have the same prefix; their messages are read at this level.
            obtain ⟨-, innerName, message, inner⟩ := sound _ (mem_of_definition? found) framed rfl
            have kept := narrows.definition?_eq found nofun
            have oldSound := narrows.hasSoundFrames sound
            rw [readWithin_framed sound levels found, readWithin_framed oldSound levels kept]
            apply Reader.follows_bind
            intro payload
            apply Reader.Follows.within
            refine (follows_readBody narrows distinct inner follows).congr ?_
            intro cursor value after returned
            obtain ⟨fields, rfl⟩ :=
              yields_object levels inner cursor value after returned
            exact (restrict_framed oldSound kept innerName fields).symm

end Older

/-- Bytes that the newer schema decodes are decoded by the older one as well: it takes as many of
them, and returns the value without the fields that it lacks, at any depth. -/
theorem Narrows.decode_restrict
    {old new : Schema}
    (narrows : old.Narrows new)
    (distinct : new.HasDistinctFields)
    (sound : new.HasSoundFrames)
    {name : String}
    {type : TypeRef}
    (resolved : new.resolve name = .ok type)
    {bytes : List UInt8}
    {value : Value}
    {consumed : Nat}
    (decoded : new.decode name bytes = .ok (value, consumed)) :
    old.decode name bytes = .ok (old.restrict type value, consumed) := by
  obtain ⟨cursor, returned, taken⟩ := (decode_eq_ok resolved).mp decoded
  have follows := follows_readWithin narrows distinct sound (maxDepth + 1) type
  rw [← narrows.resolve] at resolved
  exact (decode_eq_ok resolved).mpr ⟨cursor, follows _ value cursor returned, taken⟩

/-- Trees with their length in front, and the fields that each tree has. -/
def treeVersion (fields : List Field) : Schema :=
  ⟨[⟨"Tree", .message ⟨fields, []⟩⟩, ⟨"Frame", .framed ⟨0, .prefixed .uint32⟩⟩]⟩

def oldTree : Schema :=
  treeVersion [⟨"crown", 2, .definition 0, .optional, false⟩]

def newTree : Schema :=
  treeVersion
    [⟨"rings", 1, .scalar .sint32, .repeated, true⟩,
     ⟨"crown", 2, .definition 0, .optional, false⟩,
     ⟨"label", 3, .scalar .bytes, .optional, false⟩]

theorem oldTree_narrows : oldTree.Narrows newTree where
  outline := rfl
  fields := by
    intro index name few many kept found
    match index with
    | 0 =>
        cases kept
        cases found
        decide
    | 1 => cases kept
    | later + 2 => cases kept

theorem newTree_hasDistinctFields : newTree.HasDistinctFields := by
  constructor
  all_goals
    intro name message member
    rcases List.mem_cons.mp member with same | later
    · cases same
      decide
    · rcases List.mem_singleton.mp later with ⟨⟩

theorem newTree_hasSoundFrames : newTree.HasSoundFrames := by
  intro definition member type framed
  rcases List.mem_cons.mp member with rfl | later
  · cases framed
  · obtain rfl := List.mem_singleton.mp later
    obtain rfl : FramedType.mk 0 (.prefixed .uint32) = type := DefinitionKind.framed.inj framed
    exact ⟨rfl, _, _, rfl⟩

/-- A run, a byte string and the rings inside of the crown are passed over. -/
theorem decode_restrict_tree :
    newTree.decode "Frame" [11, 10, 2, 5, 6, 18, 2, 8, 5, 26, 1, 104] =
      .ok (.object "Tree"
        [("rings", .array [.int32 (-3), .int32 3]),
         ("crown", .object "Tree" [("rings", .array [.int32 (-3)])]),
         ("label", .bytes [104])], 12) ∧
    oldTree.decode "Frame" [11, 10, 2, 5, 6, 18, 2, 8, 5, 26, 1, 104] =
      .ok (.object "Tree" [("crown", .object "Tree" [])], 12) := by
  have decoded :
      newTree.decode "Frame" [11, 10, 2, 5, 6, 18, 2, 8, 5, 26, 1, 104] =
        .ok (.object "Tree"
          [("rings", .array [.int32 (-3), .int32 3]),
           ("crown", .object "Tree" [("rings", .array [.int32 (-3)])]),
           ("label", .bytes [104])], 12) := by
    rfl
  have resolved : newTree.resolve "Frame" = .ok (.definition 1) := rfl
  exact ⟨decoded,
    oldTree_narrows.decode_restrict newTree_hasDistinctFields newTree_hasSoundFrames resolved
      decoded⟩

end Schema

end ProtoWire
