import ProtoWire.Proofs.Codec.Records
import ProtoWire.Proofs.Codec.RoundTrip
import ProtoWire.Proofs.Codec.Updates
import ProtoWire.Proofs.Schema.Checking

/-!
Contract: the elements of a repeated field may be written in runs, in records of their own, or in
any mixture of both, with records of other fields in between. The reader accepts all of these and
gathers the elements in their order.

Owns:
- the pieces in which the elements of a field are written;
- the reading of pieces, and the elements that they leave;
- the independence of the other fields from the pieces.

Does not own: which of these forms is written.
-/

namespace ProtoWire

/-- A part of the bytes of a message, seen from one of its repeated fields. -/
inductive Piece where
  /-- Any number of elements behind one key and one length. -/
  | run (values : List Value)
  /-- One element behind a key of its own. -/
  | single (value : Value)
  /-- Records of other fields. -/
  | others (bytes : List UInt8)

namespace Piece

/-- The elements of the field in a piece. -/
def values : Piece → List Value
  | .run values => values
  | .single value => [value]
  | .others _ => []

/-- Whether a piece belongs to the field. -/
def isOwn : Piece → Bool
  | .run _ => true
  | .single _ => true
  | .others _ => false

/-- The records of other fields in a piece. -/
def foreign : Piece → List UInt8
  | .others bytes => bytes
  | _ => []

theorem foreign_of_isOwn {piece : Piece} (own : piece.isOwn = true) : piece.foreign = [] := by
  cases piece with
  | run values => rfl
  | single value => rfl
  | others bytes => cases own

theorem exists_of_isOwn_eq_false {piece : Piece} (other : piece.isOwn = false) :
    ∃ bytes, piece = .others bytes := by
  cases piece with
  | run values => cases other
  | single value => cases other
  | others bytes => exact ⟨bytes, rfl⟩

/-- Pieces of other fields add no elements. -/
theorem flatten_own (pieces : List Piece) (image : Value → Value) :
    ((pieces.filter isOwn).map fun piece => piece.values.map image).flatten =
      (pieces.flatMap values).map image := by
  induction pieces with
  | nil => rfl
  | cons piece others inductionHypothesis =>
      rw [List.flatMap_cons, List.map_append, ← inductionHypothesis]
      cases piece with
      | run values => rfl
      | single value => rfl
      | others bytes => rfl

end Piece

namespace Schema

variable {schema : Schema}

/-- The bytes of one value without a key. -/
def elementBytes (schema : Schema) (type : TypeRef) (value : Value) : List UInt8 :=
  (schema.emit type value).bytes

/-- The bytes of a piece. -/
def pieceBytes (schema : Schema) (field : Field) : Piece → List UInt8
  | .run values =>
      Key.encode field.tag .lengthDelimited ++
        Word.lengthDelimited (values.flatMap (schema.elementBytes field.type))
  | .single value =>
      Key.encode field.tag (schema.wireType field.type) ++ schema.elementBytes field.type value
  | .others bytes => bytes

/-- The elements of a piece are written, and its other records are decoded on their own and do not
set the field. -/
def AdmitsPiece (schema : Schema) (name : String) (field : Field) : Piece → Prop
  | .run values => ∀ value ∈ values, ∃ bytes, schema.emit field.type value = .ofBytes bytes
  | .single value => ∃ bytes, schema.emit field.type value = .ofBytes bytes
  | .others bytes => ∃ value consumed,
      schema.decode name bytes = .ok (value, consumed) ∧ value.field? field.name = none

theorem AdmitsPiece.written
    {name : String}
    {field : Field}
    {piece : Piece}
    (admitted : schema.AdmitsPiece name field piece)
    {value : Value}
    (inside : value ∈ piece.values) :
    ∃ bytes, schema.emit field.type value = .ofBytes bytes := by
  cases piece with
  | run values => exact admitted value inside
  | single element =>
      obtain rfl := List.mem_singleton.mp inside
      exact admitted
  | others bytes => exact nomatch inside

/-! ### Elements -/

section Elements

variable
  (wellFormed : schema.WellFormed)
  (levels : Nat)
  {type : TypeRef}
  (bare : schema.wireType type ≠ .lengthDelimited)

include wellFormed bare

theorem reads_element
    {value : Value}
    (written : ∃ bytes, schema.emit type value = .ofBytes bytes) :
    schema.elementBytes type value ≠ [] ∧
      (schema.readWithin levels type).Reads (schema.elementBytes type value)
        (schema.canonical type value) := by
  obtain ⟨bytes, emitted⟩ := written
  have same : schema.elementBytes type value = bytes := congrArg Emission.bytes emitted
  rw [same]
  exact (readsBack wellFormed levels type value).reads bytes emitted bare

theorem readsPieces_elements
    {values : List Value}
    (written : ∀ value ∈ values, ∃ bytes, schema.emit type value = .ofBytes bytes) :
    (schema.readWithin levels type).ReadsPieces (values.flatMap (schema.elementBytes type))
      (values.map (schema.canonical type)) := by
  induction values with
  | nil => exact .nil
  | cons value others inductionHypothesis =>
      obtain ⟨first, later⟩ := List.forall_mem_cons.mp written
      obtain ⟨nonempty, reads⟩ := reads_element wellFormed levels bare first
      exact .cons reads nonempty (inductionHypothesis later)

end Elements

/-! ### Pieces -/

section Pieces

variable
  {name messageName : String}
  {index : Nat}
  {message : MessageType}
  {field : Field}
  (wellFormed : schema.WellFormed)
  (resolved : schema.resolve name = .ok (.definition index))
  (found : schema.definition? index = some ⟨messageName, .message message⟩)
  (member : field ∈ message.fields)
  (repeated : field.isRepeated = true)
  (bare : schema.wireType field.type ≠ .lengthDelimited)

include wellFormed found member repeated bare

private theorem reads_own
    {piece : Piece}
    (own : piece.isOwn = true)
    (admitted : schema.AdmitsPiece name field piece)
    (fits : (schema.pieceBytes field piece).length < UInt64.size) :
    schema.pieceBytes field piece ≠ [] ∧
      (schema.readRecord (schema.readWithin maxDepth) messageName message).Reads
        (schema.pieceBytes field piece)
        (.extend field.name (piece.values.map (schema.canonical field.type))) := by
  have legal := wellFormed.messages messageName message (mem_of_definition? found)
  cases piece with
  | others bytes => cases own
  | run values =>
      have short : (values.flatMap (schema.elementBytes field.type)).length < UInt64.size := by
        simp only [pieceBytes, Word.lengthDelimited, List.length_append] at fits
        omega
      have elements := (readsPieces_elements wellFormed maxDepth bare admitted).many_exhausts
      refine ⟨List.append_ne_nil_of_left_ne_nil (Key.encode_ne_nil _ _) _, ?_⟩
      apply reads_keyed legal member
      rw [readField_run repeated bare, ← List.append_nil (Word.lengthDelimited _)]
      apply (Reader.reads_lengthDelimited short).bind
      exact (Reader.reads_within elements).map (Update.extend field.name)
  | single value =>
      obtain ⟨-, element⟩ := reads_element wellFormed maxDepth bare admitted
      have added : field.update (schema.canonical field.type value) =
          .extend field.name [schema.canonical field.type value] := if_pos repeated
      refine ⟨List.append_ne_nil_of_left_ne_nil (Key.encode_ne_nil _ _) _, ?_⟩
      apply reads_keyed legal member
      rw [readField_bare bare, Piece.values, List.map_singleton, ← added]
      exact element.map field.update

include resolved

/-- Pieces are read one behind the other, those of the field as its elements and those of other
fields as if they stood alone. -/
private theorem exists_updates
    {pieces : List Piece}
    (admitted : ∀ piece ∈ pieces, schema.AdmitsPiece name field piece)
    (fits : (pieces.flatMap (schema.pieceBytes field)).length < UInt64.size) :
    ∃ updates,
      (schema.readRecord (schema.readWithin maxDepth) messageName message).ReadsPieces
          (pieces.flatMap (schema.pieceBytes field)) updates ∧
        (schema.readRecord (schema.readWithin maxDepth) messageName message).ReadsPieces
          (pieces.flatMap Piece.foreign)
          (updates.filter fun update => !update.touches field.name) ∧
        updates.filter (Update.touches field.name) =
          ((pieces.filter Piece.isOwn).map fun piece =>
            piece.values.map (schema.canonical field.type)).map (Update.extend field.name) := by
  induction pieces with
  | nil => exact ⟨[], .nil, .nil, rfl⟩
  | cons piece later inductionHypothesis =>
      obtain ⟨first, laterAdmitted⟩ := List.forall_mem_cons.mp admitted
      rw [List.flatMap_cons, List.length_append] at fits
      obtain ⟨updates, records, foreign, own⟩ := inductionHypothesis laterAdmitted (by omega)
      rw [List.flatMap_cons, List.flatMap_cons]
      cases belongs : piece.isOwn with
      | true =>
          obtain ⟨nonempty, reads⟩ :=
            reads_own wellFormed found member repeated bare belongs first (by omega)
          have touched (added : List Value) :
              (Update.extend field.name added).touches field.name = true :=
            beq_self_eq_true field.name
          refine ⟨_, .cons reads nonempty records, ?_, ?_⟩
          · rw [Piece.foreign_of_isOwn belongs, List.filter_cons, touched]
            exact foreign
          · rw [List.filter_cons_of_pos (touched _), List.filter_cons_of_pos belongs, own]
            rfl
      | false =>
          obtain ⟨bytes, rfl⟩ := Piece.exists_of_isOwn_eq_false belongs
          obtain ⟨value, consumed, decoded, absent⟩ := first
          obtain ⟨skipped, cut, rfl, -⟩ := (decode_message_eq_ok resolved found).mp decoded
          have leaves := Update.touches_eq_false_of_foldl absent
          refine ⟨skipped ++ updates, cut.append records, ?_, ?_⟩
          · rw [List.filter_append, Update.filter_not_touches_of_leaves leaves]
            exact cut.append foreign
          · rw [List.filter_append, Update.filter_touches_of_leaves leaves, own]
            rfl

end Pieces

/-- However the elements of a repeated field are distributed over runs and records of their own,
and whatever records of other fields stand in between: the message is decoded, and the field holds
each element as it is decoded on its own, in their order. The other fields are what the other
records alone make of them. Lengths on the wire are words of 64 bits. -/
theorem WellFormed.decode_pieces
    (wellFormed : schema.WellFormed)
    {name messageName : String}
    {index : Nat}
    {message : MessageType}
    {field : Field}
    (resolved : schema.resolve name = .ok (.definition index))
    (found : schema.definition? index = some ⟨messageName, .message message⟩)
    (member : field ∈ message.fields)
    (repeated : field.isRepeated = true)
    (bare : schema.wireType field.type ≠ .lengthDelimited)
    {pieces : List Piece}
    (admitted : ∀ piece ∈ pieces, schema.AdmitsPiece name field piece)
    (fits : (pieces.flatMap (schema.pieceBytes field)).length < UInt64.size) :
    ∃ value,
      schema.decode name (pieces.flatMap (schema.pieceBytes field)) =
          .ok (value, (pieces.flatMap (schema.pieceBytes field)).length) ∧
        value.field? field.name =
          (if pieces.any Piece.isOwn then
            some (.array ((pieces.flatMap Piece.values).map (schema.canonical field.type)))
          else none) ∧
        (∀ element ∈ pieces.flatMap Piece.values,
          schema.read field.type (Cursor.ofBytes (schema.elementBytes field.type element)) =
            .ok (schema.canonical field.type element)
              ⟨(schema.elementBytes field.type element).length, []⟩) ∧
        schema.decode name (pieces.flatMap Piece.foreign) =
          .ok (value.eraseField field.name, (pieces.flatMap Piece.foreign).length) := by
  obtain ⟨updates, records, foreign, own⟩ :=
    exists_updates wellFormed resolved found member repeated bare admitted fits
  refine ⟨.object messageName (updates.foldl Update.apply []), ?_, ?_, ?_, ?_⟩
  · exact (decode_message_eq_ok resolved found).mpr ⟨updates, records, rfl, rfl⟩
  · show FieldMap.get? (updates.foldl Update.apply []) field.name = _
    rw [Update.get?_foldl updates (Eq.refl (FieldMap.get? [] field.name)), own,
      Update.get?_foldl_extend, Piece.flatten_own]
    have nothing : ((pieces.filter Piece.isOwn).map fun piece =>
        piece.values.map (schema.canonical field.type)).isEmpty = !pieces.any Piece.isOwn := by
      rw [List.isEmpty_map, Bool.eq_iff_iff, List.isEmpty_iff, List.filter_eq_nil_iff,
        Bool.not_eq_true', List.any_eq_false]
    rw [nothing]
    cases pieces.any Piece.isOwn <;> rfl
  · intro element inside
    obtain ⟨piece, present, inside⟩ := List.mem_flatMap.mp inside
    have written := (admitted piece present).written inside
    have reads := (reads_element wellFormed (maxDepth + 1) bare written).2.exhausts 0
    rwa [Nat.zero_add] at reads
  · refine (decode_message_eq_ok resolved found).mpr ⟨_, foreign, ?_, rfl⟩
    show Value.object messageName (FieldMap.erase _ field.name) = _
    rw [Update.erase_foldl]
    rfl

/-- The pitches of a score, which are not packed. -/
def pitches : Field :=
  ⟨"pitches", 1, .scalar .int32, .repeated, false⟩

def scoreSchema : Schema :=
  ⟨[⟨"Score", .message ⟨[pitches, ⟨"title", 2, .scalar .string, .optional, false⟩], []⟩⟩]⟩

/-- An empty run, a negative pitch on its own, a field that is not declared, a run of two, a title,
and another single pitch. -/
def scorePieces : List Piece :=
  [.run [], .single (.int32 (-1)), .others [72, 5], .run [.int32 2, .int32 3],
    .others [18, 1, 104], .single (.int32 4)]

theorem decode_pieces_score :
    ∃ value,
      scoreSchema.decode "Score"
          [10, 0, 8, 255, 255, 255, 255, 255, 255, 255, 255, 255, 1, 72, 5, 10, 2, 2, 3,
            18, 1, 104, 8, 4] = .ok (value, 24) ∧
        value.field? "pitches" = some (.array [.int32 (-1), .int32 2, .int32 3, .int32 4]) ∧
        scoreSchema.decode "Score" [72, 5, 18, 1, 104] = .ok (value.eraseField "pitches", 5) := by
  have wellFormed : scoreSchema.WellFormed := by decide
  have resolved : scoreSchema.resolve "Score" = .ok (.definition 0) := rfl
  have written : scorePieces.flatMap (scoreSchema.pieceBytes pitches) =
      [10, 0, 8, 255, 255, 255, 255, 255, 255, 255, 255, 255, 1, 72, 5, 10, 2, 2, 3,
        18, 1, 104, 8, 4] := by decide +kernel
  have number (value : Int32) :
      ∃ bytes, scoreSchema.emit (.scalar .int32) (.int32 value) = .ofBytes bytes := ⟨_, rfl⟩
  have admitted : ∀ piece ∈ scorePieces, scoreSchema.AdmitsPiece "Score" pitches piece := by
    intro piece member
    simp only [scorePieces, List.mem_cons, List.not_mem_nil, or_false] at member
    rcases member with rfl | rfl | rfl | rfl | rfl | rfl
    · exact List.forall_mem_nil _
    · exact number _
    · exact ⟨_, _, rfl, rfl⟩
    · exact List.forall_mem_cons.mpr ⟨number _, List.forall_mem_singleton.mpr (number _)⟩
    · exact ⟨_, _, rfl, rfl⟩
    · exact number _
  obtain ⟨value, decoded, elements, -, others⟩ :=
    wellFormed.decode_pieces resolved rfl (List.mem_cons_self (a := pitches)) rfl (by decide)
      admitted (by rw [written]; decide)
  rw [written] at decoded
  exact ⟨value, decoded, elements, others⟩

end Schema

end ProtoWire
