import ProtoWire.Proofs.Codec.Admission
import ProtoWire.Proofs.Codec.Records
import ProtoWire.Proofs.FieldMap
import ProtoWire.Proofs.Schema.Checking
import ProtoWire.Proofs.Value.Parts

/-!
Contract: messages that stand one behind the other are read as one message, with the fields of the
second merged into those of the first. Arrays grow at their ends and single values are replaced,
messages among them.

Owns:
- merging fields into fields, and its laws;
- records as entries that are merged;
- decoding of bytes behind bytes.

Does not own: which bytes are written for merged values.
-/

namespace ProtoWire

/-! ### Merging -/

namespace MessageType

/-- Whether a name is that of a repeated field. -/
def repeats (message : MessageType) (name : String) : Bool :=
  (message.fieldByName? name).any Field.isRepeated

/-- A field merged into others: the elements of a repeated field go behind those that are there,
and any other value replaces the one that is there. Either goes to the end if nothing is there. -/
def mergeEntry
    (message : MessageType)
    (fields : FieldMap Value)
    (entry : String × Value) :
    FieldMap Value :=
  if message.repeats entry.1 then FieldMap.extend fields entry.1 entry.2.asArray
  else FieldMap.insert fields entry.1 entry.2

/-- Fields merged into others, from the first to the last. -/
def merge (message : MessageType) (fields added : FieldMap Value) : FieldMap Value :=
  added.foldl message.mergeEntry fields

/-- An object merged into another one. -/
def mergeObjects (message : MessageType) : Value → Value → Value
  | .object typeName fields, .object _ added => .object typeName (message.merge fields added)
  | first, _ => first

end MessageType

/-- The value under a name, changed with a view to the elements that it has. -/
def FieldMap.revise
    (fields : FieldMap Value)
    (name : String)
    (change : List Value → Value) :
    FieldMap Value :=
  insert fields name (change (elements fields name))

namespace FieldMap

theorem revise_cons_self
    (name : String)
    (old : Value)
    (others : FieldMap Value)
    (change : List Value → Value) :
    revise ((name, old) :: others) name change = (name, change old.asArray) :: others := by
  rw [revise, elements, get?, if_pos rfl, insert, if_pos rfl]
  rfl

theorem revise_cons_ne
    {key name : String}
    (different : key ≠ name)
    (old : Value)
    (others : FieldMap Value)
    (change : List Value → Value) :
    revise ((key, old) :: others) name change = (key, old) :: revise others name change := by
  rw [revise, elements, get?, if_neg different, insert, if_neg different]
  rfl

theorem mem_keys_revise_self
    (fields : FieldMap Value)
    (name : String)
    (change : List Value → Value) :
    name ∈ keys (revise fields name change) := by
  rw [revise, keys_insert]
  split
  · assumption
  · exact List.mem_append_right _ (List.mem_singleton.mpr rfl)

theorem mem_keys_revise
    {fields : FieldMap Value}
    {name : String}
    (present : name ∈ keys fields)
    (other : String)
    (change : List Value → Value) :
    name ∈ keys (revise fields other change) := by
  rw [revise, keys_insert]
  split
  · exact present
  · exact List.mem_append_left _ present

theorem revise_revise
    (fields : FieldMap Value)
    (name : String)
    (first second : List Value → Value) :
    revise (revise fields name first) name second =
      revise fields name fun elements => second (first elements).asArray := by
  rw [revise, revise, elements_insert, if_pos rfl, insert_insert]
  rfl

theorem revise_comm
    {fields : FieldMap Value}
    {name other : String}
    (present : name ∈ keys fields)
    (different : other ≠ name)
    (change otherChange : List Value → Value) :
    revise (revise fields other otherChange) name change =
      revise (revise fields name change) other otherChange := by
  rw [revise, revise, elements_insert, if_neg different, insert_comm present different,
    revise, revise, elements_insert, if_neg different.symm]

end FieldMap

namespace MessageType

variable {message : MessageType}

/-- What merging a field makes of the elements that are there. -/
def contribution
    (message : MessageType)
    (name : String)
    (content : Value)
    (elements : List Value) :
    Value :=
  if message.repeats name then .array (elements ++ content.asArray) else content

theorem mergeEntry_eq
    (fields : FieldMap Value)
    (name : String)
    (content : Value) :
    message.mergeEntry fields (name, content) =
      fields.revise name (message.contribution name content) := by
  unfold mergeEntry FieldMap.revise contribution
  cases message.repeats name <;> rfl

/-- What was contributed contributes what stands in front of it again. -/
theorem contribution_contribution
    (name : String)
    (content : Value)
    (front back : List Value) :
    message.contribution name (message.contribution name content back) front =
      message.contribution name content (front ++ back) := by
  unfold contribution
  cases message.repeats name with
  | true => exact congrArg Value.array (List.append_assoc ..).symm
  | false => rfl

theorem contribution_asArray
    (name : String)
    (content old : Value)
    (elements : List Value) :
    message.contribution name content (message.contribution name old elements).asArray =
      message.contribution name content (elements ++ old.asArray) := by
  unfold contribution
  cases message.repeats name <;> rfl

/-- A field that is present can be changed before or after fields of other names are merged. -/
private theorem revise_merge
    {fields added : FieldMap Value}
    {name : String}
    (present : name ∈ FieldMap.keys fields)
    (absent : name ∉ FieldMap.keys added)
    (change : List Value → Value) :
    (message.merge fields added).revise name change =
      message.merge (fields.revise name change) added := by
  induction added generalizing fields with
  | nil => rfl
  | cons entry others inductionHypothesis =>
      obtain ⟨key, content⟩ := entry
      rw [FieldMap.keys, List.map_cons, List.mem_cons, not_or] at absent
      have different : key ≠ name := fun equal => absent.1 equal.symm
      have kept := FieldMap.mem_keys_revise present key (message.contribution key content)
      change (message.merge (message.mergeEntry fields (key, content)) others).revise name change =
        message.merge (message.mergeEntry (fields.revise name change) (key, content)) others
      rw [mergeEntry_eq, mergeEntry_eq, inductionHypothesis kept absent.2,
        FieldMap.revise_comm present different]

/-- A field can be merged into the fields that are merged, or into the result. -/
theorem merge_mergeEntry
    {added : FieldMap Value}
    (distinct : (FieldMap.keys added).Nodup)
    (fields : FieldMap Value)
    (name : String)
    (content : Value) :
    message.merge fields (message.mergeEntry added (name, content)) =
      message.mergeEntry (message.merge fields added) (name, content) := by
  rw [mergeEntry_eq, mergeEntry_eq]
  induction added generalizing fields with
  | nil =>
      change message.mergeEntry fields (name, message.contribution name content []) = _
      have same : message.contribution name (message.contribution name content []) =
          message.contribution name content := by
        funext elements
        rw [contribution_contribution, List.append_nil]
      rw [mergeEntry_eq, same]
      rfl
  | cons entry others inductionHypothesis =>
      obtain ⟨key, old⟩ := entry
      rw [FieldMap.keys, List.map_cons, List.nodup_cons] at distinct
      by_cases same : key = name
      · subst same
        -- Both sides change the field before the other fields are merged.
        have gathered : message.contribution key (message.contribution key content old.asArray) =
            fun elements =>
              message.contribution key content (message.contribution key old elements).asArray := by
          funext elements
          rw [contribution_contribution, contribution_asArray]
        have present := FieldMap.mem_keys_revise_self fields key (message.contribution key old)
        rw [FieldMap.revise_cons_self]
        change message.merge (message.mergeEntry fields _) others =
          (message.merge (message.mergeEntry fields _) others).revise key _
        rw [mergeEntry_eq, mergeEntry_eq, revise_merge present distinct.1,
          FieldMap.revise_revise, gathered]
      · rw [FieldMap.revise_cons_ne same]
        exact inductionHypothesis distinct.2 (message.mergeEntry fields (key, old))

/-- Fields without a name in common stand one behind the other. -/
theorem merge_of_disjoint
    {fields added : FieldMap Value}
    (distinct : (FieldMap.keys added).Nodup)
    (disjoint : ∀ name ∈ FieldMap.keys added, name ∉ FieldMap.keys fields)
    (arrays : ∀ entry ∈ added, message.repeats entry.1 = true →
      ∃ elements, entry.2 = .array elements) :
    message.merge fields added = fields ++ added := by
  induction added generalizing fields with
  | nil => exact (List.append_nil fields).symm
  | cons entry others inductionHypothesis =>
      have fresh := disjoint entry.1 List.mem_cons_self
      have first : message.mergeEntry fields entry = fields ++ [entry] := by
        unfold mergeEntry
        split
        · rename_i repeated
          obtain ⟨elements, array⟩ := arrays entry List.mem_cons_self repeated
          rw [FieldMap.extend_of_not_mem fresh, array]
          exact congrArg (fun content => fields ++ [(entry.1, content)]) array.symm
        · exact FieldMap.insert_of_not_mem fresh
      rw [FieldMap.keys, List.map_cons, List.nodup_cons] at distinct
      change message.merge (message.mergeEntry fields entry) others = _
      rw [first, inductionHypothesis distinct.2, List.append_assoc, List.singleton_append]
      · intro name member inside
        rw [FieldMap.keys, List.map_append, List.mem_append] at inside
        rcases inside with before | new
        · exact disjoint name (List.mem_cons_of_mem entry.1 member) before
        · obtain rfl := List.mem_singleton.mp new
          exact distinct.1 member
      · exact fun other member => arrays other (List.mem_cons_of_mem entry member)

end MessageType

/-! ### Records -/

section Records

variable
  {inside : TypeRef → Value → Prop}
  {message : MessageType}

theorem MessageType.repeats_of_mem
    (names : (message.fields.map Field.name).Nodup)
    {field : Field}
    (member : field ∈ message.fields) :
    message.repeats field.name = field.isRepeated := by
  rw [MessageType.repeats, MessageType.fieldByName?_of_mem names member]
  rfl

/-- A record of a declared field is an entry that is merged. -/
theorem Update.apply_eq_mergeEntry
    (names : (message.fields.map Field.name).Nodup)
    {update : Update}
    (legal : update.Admits inside message) :
    (∀ fields, update.apply fields = fields) ∨
      ∃ entry, ∀ fields, update.apply fields = message.mergeEntry fields entry := by
  cases update with
  | skip => exact .inl fun _ => rfl
  | set name value =>
      obtain ⟨field, member, rfl, singular, -⟩ := legal
      refine .inr ⟨(field.name, value), fun fields => ?_⟩
      rw [MessageType.mergeEntry, MessageType.repeats_of_mem names member, singular]
      rfl
  | extend name values =>
      obtain ⟨field, member, rfl, repeated, -⟩ := legal
      refine .inr ⟨(field.name, .array values), fun fields => ?_⟩
      rw [MessageType.mergeEntry, MessageType.repeats_of_mem names member, repeated]
      rfl

/-- A record changes merged fields as it changes the fields that are merged. -/
theorem Update.apply_merge
    (names : (message.fields.map Field.name).Nodup)
    {update : Update}
    (legal : update.Admits inside message)
    {added : FieldMap Value}
    (distinct : (FieldMap.keys added).Nodup)
    (fields : FieldMap Value) :
    update.apply (message.merge fields added) = message.merge fields (update.apply added) := by
  rcases update.apply_eq_mergeEntry names legal with skips | ⟨⟨name, content⟩, merges⟩
  · rw [skips, skips]
  · rw [merges, merges, MessageType.merge_mergeEntry distinct]

/-- Records can be gathered field by field before they change the fields of a message. -/
theorem MessageType.foldl_apply_merge
    (names : (message.fields.map Field.name).Nodup)
    {updates : List Update}
    (legal : ∀ update ∈ updates, update.Admits inside message)
    {added : FieldMap Value}
    (admitted : message.Admits inside added)
    (fields : FieldMap Value) :
    updates.foldl Update.apply (message.merge fields added) =
      message.merge fields (updates.foldl Update.apply added) := by
  induction updates generalizing added with
  | nil => rfl
  | cons update others inductionHypothesis =>
      have first := legal update List.mem_cons_self
      have later : ∀ other ∈ others, other.Admits inside message :=
        fun other member => legal other (List.mem_cons_of_mem update member)
      rw [List.foldl_cons, List.foldl_cons, update.apply_merge names first admitted.distinct]
      exact inductionHypothesis later (admitted.apply names first)

/-- What admitted fields hold in repeated fields are arrays. -/
theorem MessageType.Admits.arrays
    (names : (message.fields.map Field.name).Nodup)
    {fields : FieldMap Value}
    (admitted : message.Admits inside fields) :
    ∀ entry ∈ fields, message.repeats entry.1 = true → ∃ elements, entry.2 = .array elements := by
  intro entry member repeated
  obtain ⟨field, declared, name, admits⟩ := admitted.declared entry member
  rw [← name, MessageType.repeats_of_mem names declared] at repeated
  rw [Field.Admits, repeated] at admits
  obtain ⟨elements, array, -⟩ := admits
  exact ⟨elements, array⟩

/-- Fields without a name in common can be merged in either order. -/
theorem MessageType.Admits.merge_perm
    (names : (message.fields.map Field.name).Nodup)
    {first second : FieldMap Value}
    (firstAdmitted : message.Admits inside first)
    (secondAdmitted : message.Admits inside second)
    (disjoint : ∀ name, FieldMap.get? first name = none ∨ FieldMap.get? second name = none) :
    (message.merge first second).Perm (message.merge second first) := by
  have absent {name : String} (present : name ∈ FieldMap.keys second) :
      name ∉ FieldMap.keys first :=
    (disjoint name).elim FieldMap.get?_eq_none.mp fun missing =>
      absurd present (FieldMap.get?_eq_none.mp missing)
  rw [merge_of_disjoint secondAdmitted.distinct (fun _ => absent) (secondAdmitted.arrays names),
    merge_of_disjoint firstAdmitted.distinct (fun _ member other => absent other member)
      (firstAdmitted.arrays names)]
  exact List.perm_append_comm

end Records

/-! ### Decoding -/

namespace Schema

section Decoding

variable
  {schema : Schema}
  {name messageName : String}
  {index : Nat}
  {message : MessageType}
  {front back : List UInt8}
  {first second : Value}
  {consumed taken : Nat}

/-- Every record that is read may stand in the message, so that their fields are admitted. -/
private theorem WellFormed.legal_of_pieces
    (wellFormed : schema.WellFormed)
    {bytes : List UInt8}
    {updates : List Update}
    (pieces : (schema.readRecord (schema.readWithin maxDepth) messageName message).ReadsPieces
      bytes updates) :
    ∀ update ∈ updates, update.Admits (schema.Admits maxDepth) message := by
  have yields : (schema.readRecord (schema.readWithin maxDepth) messageName message).Yields _ :=
    yields_readRecord (yields_readWithin wellFormed maxDepth) messageName message
  exact yields.many (.ofBytes bytes) updates _ (pieces.many_exhausts 0)

/-- The records of both parts are read one after the other. -/
private theorem WellFormed.decode_append_ok
    (wellFormed : schema.WellFormed)
    (resolved : schema.resolve name = .ok (.definition index))
    (found : schema.definition? index = some ⟨messageName, .message message⟩)
    (decoded : schema.decode name front = .ok (first, consumed))
    (behind : schema.decode name back = .ok (second, taken)) :
    schema.decode name (front ++ back) =
      .ok (message.mergeObjects first second, consumed + taken) := by
  have names := (wellFormed.messages messageName message (mem_of_definition? found)).names
  obtain ⟨updates, pieces, rfl, rfl⟩ := (decode_message_eq_ok resolved found).mp decoded
  obtain ⟨others, otherPieces, rfl, rfl⟩ := (decode_message_eq_ok resolved found).mp behind
  refine (decode_message_eq_ok resolved found).mpr
    ⟨updates ++ others, pieces.append otherPieces, ?_, List.length_append.symm⟩
  rw [List.foldl_append]
  have gathered := MessageType.foldl_apply_merge names (wellFormed.legal_of_pieces otherPieces)
    MessageType.admits_nil (updates.foldl Update.apply [])
  exact congrArg (Value.object messageName) gathered.symm

/-- The first records of all bytes are those of the part in front, and the others are those of the
part behind. -/
private theorem decode_append_error
    (resolved : schema.resolve name = .ok (.definition index))
    (found : schema.definition? index = some ⟨messageName, .message message⟩)
    (decoded : schema.decode name front = .ok (first, consumed))
    {cause : WireError}
    (behind : schema.decode name back = .error cause) :
    ∃ cause, schema.decode name (front ++ back) = .error cause := by
  cases whole : schema.decode name (front ++ back) with
  | error cause => exact ⟨cause, rfl⟩
  | ok result =>
      obtain ⟨updates, pieces, -⟩ := (decode_message_eq_ok resolved found).mp decoded
      obtain ⟨all, allPieces, -⟩ := (decode_message_eq_ok resolved found).mp whole
      obtain ⟨others, -, otherPieces⟩ := pieces.split allPieces
      have accepted := (decode_message_eq_ok resolved found).mpr ⟨others, otherPieces, rfl, rfl⟩
      rw [accepted] at behind
      cases behind

/-- What is decoded from bytes in front of others. If both parts are decoded alone, the second
value is merged into the first one; if the part behind is refused, so is the whole. Values that
have no field in common are merged in either order, up to the order of the fields. -/
theorem WellFormed.decode_append
    (wellFormed : schema.WellFormed)
    (resolved : schema.resolve name = .ok (.definition index))
    (found : schema.definition? index = some ⟨messageName, .message message⟩)
    (decoded : schema.decode name front = .ok (first, consumed)) :
    (∀ second taken, schema.decode name back = .ok (second, taken) →
      schema.decode name (front ++ back) =
          .ok (message.mergeObjects first second, consumed + taken) ∧
        ((∀ fieldName, first.field? fieldName = none ∨ second.field? fieldName = none) →
          ∃ fields others,
            fields.Perm others ∧
            schema.decode name (front ++ back) =
              .ok (.object messageName fields, consumed + taken) ∧
            schema.decode name (back ++ front) =
              .ok (.object messageName others, taken + consumed))) ∧
      ((∃ cause, schema.decode name back = .error cause) →
        ∃ cause, schema.decode name (front ++ back) = .error cause) := by
  constructor
  · intro second taken behind
    have merged := wellFormed.decode_append_ok resolved found decoded behind
    have swapped := wellFormed.decode_append_ok resolved found behind decoded
    refine ⟨merged, fun disjoint => ?_⟩
    have names := (wellFormed.messages messageName message (mem_of_definition? found)).names
    obtain ⟨_, fields, ⟨⟩, rfl, admitted⟩ :=
      (admits_message found).mp (wellFormed.admits_of_decode resolved decoded)
    obtain ⟨_, others, ⟨⟩, rfl, othersAdmitted⟩ :=
      (admits_message found).mp (wellFormed.admits_of_decode resolved behind)
    exact ⟨_, _, admitted.merge_perm names othersAdmitted disjoint, merged, swapped⟩
  · rintro ⟨cause, behind⟩
    exact decode_append_error resolved found decoded behind

end Decoding

/-- Trees with the marks of their rings, a crown inside and a label. -/
def groveSchema : Schema :=
  ⟨[⟨"Tree", .message
      ⟨[⟨"rings", 1, .scalar .sint32, .repeated, true⟩,
        ⟨"crown", 2, .definition 0, .optional, false⟩,
        ⟨"label", 3, .scalar .bytes, .optional, false⟩], []⟩⟩]⟩

/-- Two rings and a crown. In front of other records: a field that is not declared, a ring outside
of a run, an empty crown, an empty run and a label. In front of and behind a label. In front of a
key without a value. -/
theorem decode_append_grove :
    groveSchema.decode "Tree"
        ([10, 2, 5, 6, 18, 2, 8, 5] ++ [72, 5, 8, 5, 18, 0, 10, 0, 26, 1, 104]) =
      .ok (.object "Tree"
        [("rings", .array [.int32 (-3), .int32 3, .int32 (-3)]),
         ("crown", .object "Tree" []),
         ("label", .bytes [104])], 19) ∧
    (∃ fields others,
      fields.Perm others ∧
      groveSchema.decode "Tree" ([10, 2, 5, 6, 18, 2, 8, 5] ++ [26, 1, 104]) =
        .ok (.object "Tree" fields, 11) ∧
      groveSchema.decode "Tree" ([26, 1, 104] ++ [10, 2, 5, 6, 18, 2, 8, 5]) =
        .ok (.object "Tree" others, 11)) ∧
    ∃ cause, groveSchema.decode "Tree" ([10, 2, 5, 6, 18, 2, 8, 5] ++ [8]) = .error cause := by
  have wellFormed : groveSchema.WellFormed := by decide
  have resolved : groveSchema.resolve "Tree" = .ok (.definition 0) := rfl
  have decoded : groveSchema.decode "Tree" [10, 2, 5, 6, 18, 2, 8, 5] =
      .ok (.object "Tree"
        [("rings", .array [.int32 (-3), .int32 3]),
         ("crown", .object "Tree" [("rings", .array [.int32 (-3)])])], 8) := rfl
  have records : groveSchema.decode "Tree" [72, 5, 8, 5, 18, 0, 10, 0, 26, 1, 104] =
      .ok (.object "Tree"
        [("rings", .array [.int32 (-3)]),
         ("crown", .object "Tree" []),
         ("label", .bytes [104])], 11) := rfl
  have label : groveSchema.decode "Tree" [26, 1, 104] =
      .ok (.object "Tree" [("label", .bytes [104])], 3) := rfl
  refine ⟨((wellFormed.decode_append resolved rfl decoded).1 _ _ records).1,
    ((wellFormed.decode_append resolved rfl decoded).1 _ _ label).2 ?_,
    (wellFormed.decode_append resolved rfl decoded).2 ⟨_, rfl⟩⟩
  intro fieldName
  by_cases same : "label" = fieldName
  · subst same
    exact .inl rfl
  · exact .inr (if_neg same)

end Schema

end ProtoWire
