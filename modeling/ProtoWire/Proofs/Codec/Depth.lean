import ProtoWire.Proofs.Codec.Admission
import ProtoWire.Proofs.Codec.Restriction
import ProtoWire.Proofs.Codec.RoundTrip
import ProtoWire.Proofs.Wire.Refusing

/-!
Contract: the limit on nested messages. The reader follows as many objects inside of each other as
the limit says, and refuses what was written for a value with one more. Arrays, runs and frames do
not count.

Owns:
- the nesting of the values that a type admits;
- the refusal of what was written for deeper values;
- the nesting of the declared fields of a value.

Does not own: what is read for values within the limit.
-/

namespace ProtoWire

namespace Schema

variable {schema : Schema}

/-! ### Admitted values -/

private theorem nesting_le_of_core_admits
    {body : MessageType → FieldMap Value → Prop}
    {core : Core}
    {value : Value}
    {bound : Nat}
    (admitted : core.Admits body value)
    (inside : ∀ message fields, body message fields → 1 + Value.nestingOfFields fields ≤ bound) :
    value.nesting ≤ bound := by
  cases core with
  | scalar type =>
      obtain ⟨bytes, written⟩ := admitted
      rw [(Scalar.isLeaf_of_encode written).nesting_eq]
      exact Nat.zero_le bound
  | enum name type =>
      obtain ⟨number, rfl⟩ := admitted
      rw [(type.isLeaf_valueOf name number).nesting_eq]
      exact Nat.zero_le bound
  | message name message =>
      obtain ⟨fields, rfl, admitted⟩ := admitted
      rw [Value.nesting]
      exact inside message fields admitted
  | missing index => exact admitted.elim

/-- The values that are admitted up to a depth do not nest deeper. -/
theorem nesting_le_of_admits
    {levels : Nat}
    {type : TypeRef}
    {value : Value}
    (admitted : schema.Admits levels type value) :
    value.nesting ≤ levels := by
  induction levels generalizing type value with
  | zero => exact nesting_le_of_core_admits admitted fun _ _ none => none.elim
  | succ levels inductionHypothesis =>
      refine nesting_le_of_core_admits admitted fun message fields legal => ?_
      rw [Nat.add_comm]
      apply Nat.succ_le_succ
      apply Value.nestingOfFields_le
      intro entry member
      obtain ⟨field, -, -, content⟩ := legal.declared entry member
      unfold Field.Admits at content
      split at content
      · obtain ⟨elements, array, each⟩ := content
        rw [array, Value.nesting]
        exact Value.nestingOfElements_le fun element inside =>
          inductionHypothesis (each element inside)
      · exact inductionHypothesis content

/-! ### Refused values -/

/-- What delimits itself is no object. -/
theorem nesting_canonical_of_bare
    {type : TypeRef}
    (bare : schema.wireType type ≠ .lengthDelimited)
    {value : Value}
    {bytes : List UInt8}
    (written : schema.emit type value = .ofBytes bytes) :
    (schema.canonical type value).nesting = 0 := by
  cases type with
  | scalar type =>
      rw [emit_scalar, Emission.ofExcept_eq_ofBytes] at written
      rw [canonical_scalar written]
      exact (Scalar.isLeaf_of_encode written).nesting_eq
  | definition index =>
      obtain ⟨name, enum, found⟩ := exists_enum_of_bare bare
      obtain ⟨number, numbered, -⟩ := (emit_enum_eq_ofBytes found).mp written
      rw [canonical_enum found numbered]
      exact (enum.isLeaf_valueOf name number).nesting_eq

/-- If what one of some items writes stalls, and what all items in front of it write is read, then
what the items write one behind the other stalls. -/
private theorem stalls_concat
    {α β : Type}
    {reader : Reader β}
    {cause : WireError}
    {emitItem : α → Emission}
    (Deep : α → Prop)
    {items : List α}
    {bytes : List UInt8}
    (shallow : ∀ item ∈ items, ¬ Deep item → ∀ piece, emitItem item = .ofBytes piece →
      piece.length ≤ bytes.length → ∃ values, reader.ReadsPieces piece values)
    (deep : ∀ item ∈ items, Deep item → ∀ piece, emitItem item = .ofBytes piece →
      piece.length ≤ bytes.length → reader.Stalls cause piece)
    (one : ∃ item ∈ items, Deep item)
    (written : Emission.concat (items.map emitItem) = .ofBytes bytes) :
    reader.Stalls cause bytes := by
  induction items generalizing bytes with
  | nil =>
      obtain ⟨item, member, -⟩ := one
      cases member
  | cons item others inductionHypothesis =>
      rw [List.map_cons, Emission.concat_cons, Emission.append_eq_ofBytes] at written
      obtain ⟨front, rest, first, later, rfl⟩ := written
      rw [List.length_append] at shallow deep
      -- The first deep item decides: what stands behind it is not read.
      by_cases deepest : Deep item
      · have stalls := deep item List.mem_cons_self deepest front first (Nat.le_add_right ..)
        exact stalls.append rest
      · obtain ⟨values, pieces⟩ :=
          shallow item List.mem_cons_self deepest front first (Nat.le_add_right ..)
        obtain ⟨other, member, otherDeep⟩ := one
        have inside : other ∈ others :=
          (List.mem_cons.mp member).resolve_left fun same => deepest (same ▸ otherDeep)
        apply pieces.stalls
        refine inductionHypothesis ?_ ?_ ⟨other, inside, otherDeep⟩ later
        · intro item member shallowItem piece content bound
          exact shallow item (List.mem_cons_of_mem _ member) shallowItem piece content
            (Nat.le_trans bound (Nat.le_add_left ..))
        · intro item member deepItem piece content bound
          exact deep item (List.mem_cons_of_mem _ member) deepItem piece content
            (Nat.le_trans bound (Nat.le_add_left ..))

/-- What a value writes is refused at a depth that it exceeds. -/
def RefusesDeeper (schema : Schema) (levels : Nat) (type : TypeRef) (value : Value) : Prop :=
  ∀ payload, schema.emit type value = .ofBytes payload → payload.length < UInt64.size →
    levels < (schema.canonical type value).nesting →
      (schema.readWithin levels type).RefusesAll payload (.recursionLimitExceeded maxDepth)

section Records

variable
  {levels : Nat}
  {messageName : String}
  {message : MessageType}
  {field : Field}

private theorem stalls_record
    (wellFormed : schema.WellFormed)
    (legal : message.WellFormed schema)
    (member : field ∈ message.fields)
    {value : Value}
    (refuses : schema.RefusesDeeper levels field.type value)
    {bytes : List UInt8}
    (written : schema.emitRecord schema.size schema.emit field value = .ofBytes bytes)
    (fits : bytes.length < UInt64.size)
    (deep : levels < (schema.canonical field.type value).nesting) :
    (schema.readRecord (schema.readWithin levels) messageName message).Stalls
      (.recursionLimitExceeded maxDepth) bytes := by
  by_cases delimited : schema.wireType field.type = .lengthDelimited
  · obtain ⟨payload, content, rfl⟩ := (emitRecord_delimited wellFormed.frames delimited).mp written
    have rules := legal.fields field member
    have short : payload.length < UInt64.size := by
      simp only [Word.lengthDelimited, List.length_append] at fits
      omega
    have inside := (refuses payload content short deep).within
    refine Reader.Refuses.stalls ?_ (List.append_ne_nil_of_left_ne_nil (Key.encode_ne_nil _ _) _)
    apply (Reader.reads_key .lengthDelimited rules.positive rules.bounded).bind_refuses
    simp only [MessageType.fieldByTag?_of_mem legal.tags member]
    rw [readField_delimited delimited, ← List.append_nil (Word.lengthDelimited payload)]
    apply (Reader.reads_lengthDelimited short).bind_refuses
    exact inside.bind _
  · obtain ⟨payload, content, -⟩ := (emitRecord_bare delimited).mp written
    have flat := nesting_canonical_of_bare delimited content
    omega

private theorem stalls_records
    (wellFormed : schema.WellFormed)
    (legal : message.WellFormed schema)
    (member : field ∈ message.fields)
    (refuses : ∀ value, schema.RefusesDeeper levels field.type value)
    {values : List Value}
    {bytes : List UInt8}
    (written : Emission.concat
      (values.map (schema.emitRecord schema.size schema.emit field)) = .ofBytes bytes)
    (fits : bytes.length < UInt64.size)
    (one : ∃ value ∈ values, levels < (schema.canonical field.type value).nesting) :
    (schema.readRecord (schema.readWithin levels) messageName message).Stalls
      (.recursionLimitExceeded maxDepth) bytes := by
  refine stalls_concat _ ?shallow ?deep one written
  case shallow =>
    intro value _ shallow piece content bound
    have back := readsBack wellFormed levels field.type value
    obtain ⟨nonempty, reads⟩ := reads_record wellFormed legal member back content
      (Nat.lt_of_le_of_lt bound fits) (Nat.le_of_not_lt shallow)
    exact ⟨_, .singleton reads nonempty⟩
  case deep =>
    intro value _ deep piece content bound
    exact stalls_record wellFormed legal member (refuses value) content
      (Nat.lt_of_le_of_lt bound fits) deep

/-- What is written for a field stalls if its entry nests too deep. -/
private theorem stalls_field
    (wellFormed : schema.WellFormed)
    (legal : message.WellFormed schema)
    (member : field ∈ message.fields)
    (refuses : ∀ value, schema.RefusesDeeper levels field.type value)
    {fields : FieldMap Value}
    {bytes : List UInt8}
    (written :
      schema.emitField schema.size schema.emit messageName fields field = .ofBytes bytes)
    (fits : bytes.length < UInt64.size)
    {name : String}
    {content : Value}
    (kept : field.entry? (schema.canonicalFields message fields) = some (name, content))
    (deep : levels < content.nesting) :
    (schema.readRecord (schema.readWithin levels) messageName message).Stalls
      (.recursionLimitExceeded maxDepth) bytes := by
  cases occurs : schema.occurrence messageName fields field with
  | error cause =>
      rw [emitField_of_error occurs] at written
      cases congrArg Emission.failure written
  | ok occurrence =>
      have named := MessageType.fieldByName?_of_mem legal.names member
      cases occurs_of_occurrence named occurs with
      | nothing _ absent =>
          rw [kept] at absent
          cases absent
      | @single value _ present =>
          obtain ⟨-, rfl⟩ := Prod.mk.inj (Option.some.inj (kept.symm.trans present))
          rw [emitField_of_records occurs] at written
          exact stalls_records wellFormed legal member refuses written fits
            ⟨value, List.mem_cons_self, deep⟩
      | records _ _ _ present =>
          obtain ⟨-, rfl⟩ := Prod.mk.inj (Option.some.inj (kept.symm.trans present))
          rw [emitField_of_records occurs] at written
          rw [Value.nesting] at deep
          obtain ⟨_, inside, deeper⟩ := Value.exists_of_lt_nestingOfElements deep
          obtain ⟨value, among, rfl⟩ := List.mem_map.mp inside
          exact stalls_records wellFormed legal member refuses written fits ⟨value, among, deeper⟩
      | run _ packed _ present =>
          -- The elements of a run delimit themselves, so that none of them holds an object.
          have bare : schema.wireType field.type ≠ .lengthDelimited :=
            bne_iff_ne.mp (Bool.and_eq_true_iff.mp packed).2
          obtain ⟨-, rfl⟩ := Prod.mk.inj (Option.some.inj (kept.symm.trans present))
          obtain ⟨run, elements, -⟩ := (emitField_run wellFormed.frames occurs).mp written
          rw [Value.nesting] at deep
          obtain ⟨_, inside, deeper⟩ := Value.exists_of_lt_nestingOfElements deep
          obtain ⟨value, among, rfl⟩ := List.mem_map.mp inside
          obtain ⟨piece, content⟩ := Emission.exists_of_concat_map elements among
          have flat := nesting_canonical_of_bare bare content
          omega

end Records

/-! ### Messages and frames -/

private theorem refusesDeeper_message
    (wellFormed : schema.WellFormed)
    {levels index : Nat}
    {name : String}
    {message : MessageType}
    (found : schema.definition? index = some ⟨name, .message message⟩)
    (refuses : ∀ fewer, levels = fewer + 1 → ∀ type value, schema.RefusesDeeper fewer type value)
    (value : Value) :
    schema.RefusesDeeper levels (.definition index) value := by
  have legal := wellFormed.messages name message (mem_of_definition? found)
  intro payload written fits deep
  rw [readWithin_message levels found]
  cases levels with
  | zero => exact Reader.refusesAll_throw _ payload
  | succ fewer =>
      obtain ⟨typeName, fields, rfl⟩ := isObject_of_emit found written
      rw [canonical_message found, Value.nesting] at deep
      rw [emit_message found] at written
      have back (type : TypeRef) (value : Value) := readsBack wellFormed fewer type value
      -- A field is deep if the entry that it has in the canonical form is.
      have stalls : (schema.readRecord (schema.readWithin fewer) name message).Stalls
          (.recursionLimitExceeded maxDepth) payload := by
        refine stalls_concat
          (fun field => ∃ entryName content,
            field.entry? (schema.canonicalFields message fields) = some (entryName, content) ∧
              fewer < content.nesting)
          ?shallow ?deep ?one written
        case shallow =>
          intro field member shallow piece content bound
          obtain ⟨updates, pieces, -⟩ := readsPieces_field wellFormed legal member
            (back field.type) content (Nat.lt_of_le_of_lt bound fits)
            fun entryName content kept =>
              Nat.le_of_not_lt fun deeper => shallow ⟨entryName, content, kept, deeper⟩
          exact ⟨updates, pieces⟩
        case deep =>
          rintro field member ⟨entryName, content, kept, deeper⟩ piece written bound
          exact stalls_field wellFormed legal member (refuses fewer rfl field.type) written
            (Nat.lt_of_le_of_lt bound fits) kept deeper
        case one =>
          have fieldsDeep : fewer <
              Value.nestingOfFields (message.arrange (schema.canonicalFields message fields)) := by
            omega
          obtain ⟨⟨entryName, content⟩, inside, deeper⟩ :=
            Value.exists_of_lt_nestingOfFields fieldsDeep
          obtain ⟨field, member, kept⟩ := List.mem_filterMap.mp inside
          exact ⟨field, member, entryName, content, kept, deeper⟩
      exact stalls.many.bind _

/-- What a value writes is refused at every depth that the canonical form of the value exceeds. By
induction on the levels, of which messages take up one and frames none. -/
theorem refusesDeeper
    (wellFormed : schema.WellFormed)
    (levels : Nat)
    (type : TypeRef)
    (value : Value) :
    schema.RefusesDeeper levels type value := by
  induction levels using Nat.strongRecOn generalizing type value with
  | _ levels inductionHypothesis =>
      have refuses (fewer : Nat) (same : levels = fewer + 1) (type : TypeRef) (value : Value) :
          schema.RefusesDeeper fewer type value :=
        inductionHypothesis fewer (by omega) type value
      intro payload written fits deep
      cases type with
      | scalar type =>
          rw [emit_scalar, Emission.ofExcept_eq_ofBytes] at written
          rw [canonical_scalar written, (Scalar.isLeaf_of_encode written).nesting_eq] at deep
          exact absurd deep (Nat.not_lt_zero levels)
      | definition index =>
          rcases found : schema.definition? index with _ | ⟨name, message | enum | framed⟩
          · rw [emit_missing found] at written
            cases congrArg Emission.failure written
          · exact refusesDeeper_message wellFormed found refuses value payload written fits deep
          · obtain ⟨number, numbered, -⟩ := (emit_enum_eq_ofBytes found).mp written
            rw [canonical_enum found numbered, (enum.isLeaf_valueOf name number).nesting_eq] at deep
            exact absurd deep (Nat.not_lt_zero levels)
          · -- A frame takes up no level, so that the message inside of it is refused at this level.
            obtain ⟨framing, innerName, message, inner⟩ :=
              wellFormed.frames _ (mem_of_definition? found) framed rfl
            obtain ⟨content, contentOk, checked, rfl⟩ :=
              (emit_framed wellFormed.frames found).mp written
            obtain ⟨typeName, fields, rfl⟩ := isObject_of_emit inner contentOk
            rw [canonical_framed wellFormed.frames found] at deep
            rw [List.length_append] at fits
            have inside := refusesDeeper_message wellFormed inner refuses _ content contentOk
              (by omega) deep
            rw [readWithin_framed wellFormed.frames levels found, ← List.append_nil (_ ++ content)]
            apply Reader.Refuses.refusesAll
            apply (Framing.reads_payload framing checked).bind_refuses
            exact inside.within

/-! ### Declared fields -/

/-- Under distinct names, what a message keeps in its canonical form nests as deep as what it
declares. -/
private theorem nestingOfFields_arrange
    {message : MessageType}
    {fields : FieldMap Value}
    (distinct : (FieldMap.keys fields).Nodup)
    (each : ∀ entry ∈ fields, ∀ type,
      (schema.canonical type entry.2).nesting = (schema.restrict type entry.2).nesting) :
    Value.nestingOfFields (message.arrange (schema.canonicalFields message fields)) =
      Value.nestingOfFields (schema.restrictFields message fields) := by
  apply Nat.le_antisymm
  · apply Value.nestingOfFields_le
    intro entry member
    obtain ⟨field, declared, kept⟩ := List.mem_filterMap.mp member
    obtain ⟨known, named⟩ : ∃ known, message.fieldByName? field.name = some known := by
      apply Option.ne_none_iff_exists'.mp
      intro unknown
      exact MessageType.fieldByName?_eq_none.mp unknown (List.mem_map_of_mem declared)
    have same : known.name = field.name := (MessageType.mem_of_fieldByName? named).2
    have present := Field.get?_of_entry? kept
    rw [← same] at named present
    rw [get?_canonicalFields named] at present
    obtain ⟨content, found, canonical⟩ := Option.map_eq_some_iff.mp present
    have left : FieldMap.get? (schema.restrictFields message fields) known.name =
        some (schema.restrict known.type content) := by
      rw [get?_restrictFields named, found]
      rfl
    have equal := each _ (FieldMap.mem_of_get? found) known.type
    have bound := Value.nesting_le_of_mem_fields (FieldMap.mem_of_get? left)
    rw [canonical] at equal
    exact Nat.le_trans (Nat.le_of_eq equal) bound
  · apply Value.nestingOfFields_le
    intro entry member
    obtain ⟨field, content, named, inside, same⟩ := exists_of_mem_restrictFields member
    obtain ⟨declared, name⟩ := MessageType.mem_of_fieldByName? named
    have equal := each _ inside field.type
    rw [same, ← equal]
    by_cases empty : schema.canonical field.type content = .array []
    · rw [empty, Value.nesting, Value.nestingOfElements]
      exact Nat.zero_le _
    · have found : FieldMap.get? (schema.canonicalFields message fields) field.name =
          some (schema.canonical field.type content) := by
        rw [← name] at named inside
        rw [get?_canonicalFields named, FieldMap.get?_of_mem distinct inside]
        rfl
      have kept : (field.name, schema.canonical field.type content) ∈
          message.arrange (schema.canonicalFields message fields) :=
        List.mem_filterMap.mpr ⟨field, declared, Field.entry?_of_ne found empty⟩
      exact Value.nesting_le_of_mem_fields kept

private theorem nesting_canonical_leaf (type : TypeRef) {value : Value} (leaf : value.IsLeaf) :
    (schema.canonical type value).nesting = (schema.restrict type value).nesting := by
  have bound := schema.nesting_canonical_le type value
  rw [leaf.nesting_eq] at bound
  rw [restrict_leaf type leaf, leaf.nesting_eq]
  exact Nat.le_zero.mp bound

mutual

/-- The canonical form of a value nests as deep as its declared fields. -/
theorem nesting_canonical (schema : Schema) (type : TypeRef) :
    ∀ value : Value, value.HasDistinctNames →
      (schema.canonical type value).nesting = (schema.restrict type value).nesting
  | .array elements, distinct => by
      rw [canonical, restrict, Value.nesting, Value.nesting]
      exact nesting_canonicalElements schema type elements fun _ member => distinct.element member
  | .object typeName fields, distinct => by
      have each := nesting_canonical_entry schema fields fun _ member => distinct.content member
      rw [canonical, restrict]
      cases (schema.layers type).core with
      | message name message =>
          show (Value.object name (message.arrange (schema.canonicalFields message fields))).nesting =
            (Value.object typeName (schema.restrictFields message fields)).nesting
          rw [Value.nesting, Value.nesting, nestingOfFields_arrange distinct.keys each]
      | _ => rfl
  | .bool _, _ | .int32 _, _ | .int64 _, _ | .uint32 _, _ | .uint64 _, _ | .float _, _
  | .double _, _ | .string _, _ | .bytes _, _ | .enum _ _, _ => by
      apply nesting_canonical_leaf
      constructor <;> simp

private theorem nesting_canonicalElements (schema : Schema) (type : TypeRef) :
    ∀ elements : List Value, (∀ element ∈ elements, element.HasDistinctNames) →
      Value.nestingOfElements (schema.canonicalElements type elements) =
        Value.nestingOfElements (schema.restrictElements type elements)
  | [], _ => by rw [canonicalElements, restrictElements]
  | element :: others, distinct => by
      obtain ⟨first, later⟩ := List.forall_mem_cons.mp distinct
      rw [canonicalElements, restrictElements, Value.nestingOfElements, Value.nestingOfElements,
        nesting_canonical schema type element first,
        nesting_canonicalElements schema type others later]

private theorem nesting_canonical_entry (schema : Schema) :
    ∀ fields : List (String × Value), (∀ entry ∈ fields, entry.2.HasDistinctNames) →
      ∀ entry ∈ fields, ∀ type,
        (schema.canonical type entry.2).nesting = (schema.restrict type entry.2).nesting
  | [], _ => fun _ member => nomatch member
  | (name, content) :: others, distinct => by
      obtain ⟨first, later⟩ := List.forall_mem_cons.mp distinct
      intro entry member type
      rcases List.mem_cons.mp member with rfl | inside
      · exact nesting_canonical schema type content first
      · exact nesting_canonical_entry schema others later entry inside type

end

/-! ### Decoding -/

/-- Decoding what was encoded fails exactly for values whose canonical form nests too deep, and
then because of the limit. -/
theorem WellFormed.decode_encode_eq_error
    (wellFormed : schema.WellFormed)
    {name : String}
    {type : TypeRef}
    {value : Value}
    {bytes : List UInt8}
    (resolved : schema.resolve name = .ok type)
    (encoded : schema.encode name value = .ok bytes)
    (fits : bytes.length < UInt64.size)
    {cause : WireError} :
    schema.decode name bytes = .error cause ↔
      maxDepth + 1 < (schema.canonical type value).nesting ∧
        cause = .recursionLimitExceeded maxDepth := by
  by_cases deep : maxDepth + 1 < (schema.canonical type value).nesting
  · have written := encoded
    rw [encode_eq wellFormed.frames resolved, Emission.toExcept_eq_ok] at written
    have refused := refusesDeeper wellFormed (maxDepth + 1) type value bytes written fits deep
    have failed : schema.decode name bytes = .error (.recursionLimitExceeded maxDepth) :=
      (decode_eq_error resolved).mpr (refused 0)
    constructor
    · intro other
      exact ⟨deep, Except.error.inj (other.symm.trans failed)⟩
    · rintro ⟨-, rfl⟩
      exact failed
  · have decoded := wellFormed.decode_encode resolved encoded fits (Nat.le_of_not_lt deep)
    constructor
    · intro failed
      cases decoded.symm.trans failed
    · rintro ⟨deeper, -⟩
      exact absurd deeper deep

end Schema

end ProtoWire
