import ProtoWire.Proofs.Keys
import ProtoWire.Proofs.Outcome
import ProtoWire.Proofs.Proto.Enclosure
import ProtoWire.Proto.Legality

/-!
Contract: the rules that the declarations of a file obey, said of the declarations themselves and
not of a check. The check accepts the files that obey all of them, and no others.

Owns:
- the rules on fields, extension ranges, enums, extend blocks, messages and files;
- for each kind of declaration, what its check accepts.

Does not own: where messages stand, which violation is reported, or what declarations compile to.
-/

namespace ProtoWire

/-- A keyword that stands for a type is the keyword of the type. -/
theorem Scalar.name_of_ofName? {name : String} {scalar : Scalar}
    (found : Scalar.ofName? name = some scalar) :
    scalar.name = name := by
  have same := List.find?_some found
  exact eq_of_beq same

namespace Proto

open Outcome

/-! ### Rules -/

/-- The rules on one field. Its number has 29 bits at most. The type of the keys of a map is an
integer type, `bool` or `string`, and only elements that delimit themselves can be packed, as far as
the name of their type shows. -/
structure FieldDecl.Lawful (field : FieldDecl) : Prop where
  positive : 1 ≤ field.tag
  bounded : field.tag ≤ 536870911
  unreserved : ¬ (19000 ≤ field.tag ∧ field.tag ≤ 19999)
  unlabelledMap : ∀ map, field.map = some map → field.label = .none
  mapKey : ∀ map, field.map = some map → ∃ scalar : Scalar, map.key = scalar.name ∧
    (scalar.isInteger = true ∨ scalar = .bool ∨ scalar = .string)
  packed : field.packed.isSome = true →
    field.label = .repeated ∧ field.map = none ∧ field.type ≠ "string" ∧ field.type ≠ "bytes"

/-- The rules on an extension range of a message with some fields. -/
structure ExtensionRange.Lawful (fields : List FieldDecl) (range : ExtensionRange) : Prop where
  positive : 1 ≤ range.start
  ordered : range.start ≤ range.stop
  bounded : range.stop ≤ 536870911
  free : ∀ field ∈ fields, ¬ (range.start ≤ field.tag ∧ field.tag ≤ range.stop)

/-- The rules on an enum. -/
structure EnumDecl.Lawful (edition : Edition) (enum : EnumDecl) : Prop where
  nonempty : enum.values ≠ []
  names : (enum.values.map EnumValueDecl.name).Nodup
  zero : edition = .proto3 → ∀ first ∈ enum.values.head?, first.number = 0

/-- The rules on an extend block. -/
structure ExtendDecl.Lawful (extension : ExtendDecl) : Prop where
  fields : ∀ field ∈ extension.fields, field.Lawful
  noMap : ∀ field ∈ extension.fields, field.map = none
  notRequired : ∀ field ∈ extension.fields, field.label ≠ .required
  tags : (extension.fields.map FieldDecl.tag).Nodup

/-- The rules on a message, apart from the messages inside of it. -/
structure MessageDecl.Lawful (edition : Edition) (message : MessageDecl) : Prop where
  fields : ∀ field ∈ message.fields, field.Lawful
  tags : (message.fields.map FieldDecl.tag).Nodup
  names : (message.fields.map FieldDecl.name).Nodup
  notRequired : ∀ field ∈ message.fields, edition = .proto3 → field.label ≠ .required
  ranges : ∀ range ∈ message.ranges, range.Lawful message.fields
  enums : ∀ enum ∈ message.enums, enum.Lawful edition
  extensions : ∀ extension ∈ message.extensions, extension.Lawful

/-- The rules on a file. -/
structure FileDecl.Lawful (file : FileDecl) : Prop where
  messages : ∀ named : String × MessageDecl, StandsIn file.scope file.messages named →
    named.2.Lawful file.edition
  enums : ∀ enum ∈ file.enums, enum.Lawful file.edition
  extensions : ∀ extension ∈ file.extensions, extension.Lawful

/-! ### Checks -/

theorem refuse_eq_ok {violated : Bool} {error : SourceError} :
    refuse violated error = .ok () ↔ violated = false := by
  cases violated <;> simp [refuse]

/-- A check followed by others passes when all of them do. -/
theorem check_then {first second : Check} :
    (first >>= fun _ => second) = .ok () ↔ first = .ok () ∧ second = .ok () := by
  rw [bind_eq_ok]
  exact ⟨fun ⟨_, passed, rest⟩ => ⟨passed, rest⟩, fun ⟨passed, rest⟩ => ⟨(), passed, rest⟩⟩

theorem contains_mapKeyTypes {key : String} :
    mapKeyTypes.contains key = true ↔ ∃ scalar : Scalar, key = scalar.name ∧
      (scalar.isInteger = true ∨ scalar = .bool ∨ scalar = .string) := by
  have keywords : mapKeyTypes =
      ([.int32, .int64, .uint32, .uint64, .sint32, .sint64, .fixed32, .fixed64, .sfixed32,
        .sfixed64, .bool, .string] : List Scalar).map Scalar.name := rfl
  rw [List.contains_iff_mem, keywords, List.mem_map]
  constructor
  · rintro ⟨scalar, listed, rfl⟩
    refine ⟨scalar, rfl, ?_⟩
    revert listed
    cases scalar <;> decide
  · rintro ⟨scalar, rfl, kind⟩
    refine ⟨scalar, ?_, rfl⟩
    revert kind
    cases scalar <;> decide

theorem FieldDecl.mayBePacked_iff {field : FieldDecl} :
    field.mayBePacked = true ↔ field.type ≠ "string" ∧ field.type ≠ "bytes" := by
  unfold FieldDecl.mayBePacked
  cases found : Scalar.ofName? field.type with
  | none =>
      refine iff_of_true rfl ⟨?_, ?_⟩
      · intro same
        rw [same] at found
        revert found
        decide
      · intro same
        rw [same] at found
        revert found
        decide
  | some scalar =>
      rw [← Scalar.name_of_ofName? found]
      cases scalar <;> decide

theorem Tag.isInRange_iff {tag : Nat} :
    Tag.isInRange tag = true ↔ 1 ≤ tag ∧ tag ≤ 536870911 := by
  rw [Tag.isInRange, Bool.and_eq_true, decide_eq_true_eq, decide_eq_true_eq]
  exact Iff.rfl

theorem Tag.isReserved_iff {tag : Nat} :
    Tag.isReserved tag = true ↔ 19000 ≤ tag ∧ tag ≤ 19999 := by
  simp [Tag.isReserved]

/-- The option is in a place where it may stand, if it is given. -/
private theorem FieldDecl.packed_allowed_iff {field : FieldDecl} :
    (field.packed.isSome &&
      (field.label != .repeated || field.map.isSome || !field.mayBePacked)) = false ↔
      (field.packed.isSome = true → field.label = .repeated ∧ field.map = none ∧
        field.type ≠ "string" ∧ field.type ≠ "bytes") := by
  rw [← FieldDecl.mayBePacked_iff]
  cases field.packed.isSome with
  | false => simp
  | true => simp [and_assoc]

/-- The check of a field accepts the fields that obey the rules. -/
theorem FieldDecl.check_eq_ok {message : String} {field : FieldDecl} :
    field.check message = .ok () ↔ field.Lawful := by
  unfold FieldDecl.check
  rw [check_then, check_then, refuse_eq_ok, refuse_eq_ok, Bool.not_eq_false', Tag.isInRange_iff,
    ← Bool.not_eq_true, Tag.isReserved_iff]
  have option := field.packed_allowed_iff
  cases mapped : field.map with
  | none =>
      rw [mapped] at option
      simp only
      rw [refuse_eq_ok, option]
      constructor
      · rintro ⟨⟨positive, bounded⟩, unreserved, packed⟩
        exact ⟨positive, bounded, unreserved, by simp [mapped], by simp [mapped],
          fun given => mapped ▸ packed given⟩
      · intro lawful
        exact ⟨⟨lawful.positive, lawful.bounded⟩, lawful.unreserved,
          fun given => mapped ▸ lawful.packed given⟩
  | some map =>
      rw [mapped] at option
      simp only
      rw [check_then, check_then, refuse_eq_ok, refuse_eq_ok, refuse_eq_ok, option,
        bne_eq_false_iff_eq, Bool.not_eq_false', contains_mapKeyTypes]
      constructor
      · rintro ⟨⟨positive, bounded⟩, unreserved, unlabelled, key, packed⟩
        refine ⟨positive, bounded, unreserved, fun _ _ => unlabelled, ?_,
          fun given => mapped ▸ packed given⟩
        intro other same
        obtain rfl := Option.some.inj (mapped.symm.trans same)
        exact key
      · intro lawful
        exact ⟨⟨lawful.positive, lawful.bounded⟩, lawful.unreserved,
          lawful.unlabelledMap map mapped, lawful.mapKey map mapped,
          fun given => mapped ▸ lawful.packed given⟩

/-- The rules on the fields of a message, each field together with those before it. -/
theorem checkFields_eq_ok {edition : Edition} {message : String} {fields : List FieldDecl} :
    checkFields edition message [] fields = .ok () ↔
      (∀ field ∈ fields, field.Lawful) ∧ (fields.map FieldDecl.tag).Nodup ∧
        (fields.map FieldDecl.name).Nodup ∧
          ∀ field ∈ fields, edition = .proto3 → field.label ≠ .required := by
  -- The check takes the fields before the next one along: this is what makes it see duplicates.
  have step (earlier : List FieldDecl) (field : FieldDecl) (others : List FieldDecl) :
      checkFields edition message earlier (field :: others) = .ok () ↔
        (field.Lawful ∧ field.tag ∉ earlier.map FieldDecl.tag ∧
          field.name ∉ earlier.map FieldDecl.name ∧
            (edition = .proto3 → field.label ≠ .required)) ∧
          checkFields edition message (earlier ++ [field]) others = .ok () := by
    rw [checkFields, check_then, check_then, check_then, check_then, FieldDecl.check_eq_ok,
      refuse_eq_ok, refuse_eq_ok, refuse_eq_ok, Keys.any_eq_false, Keys.any_eq_false]
    simp [and_assoc]
  rw [Keys.inTurn_iff (fun earlier fields => checkFields edition message earlier fields = .ok ())
    (fun _ => rfl) step]
  simp only [imp_and, forall_and, Keys.forall_inTurn, ← Keys.nodup_iff_inTurn]

theorem ExtensionRange.contains_iff {range : ExtensionRange} {tag : Nat} :
    range.contains tag = true ↔ range.start ≤ tag ∧ tag ≤ range.stop := by
  simp [ExtensionRange.contains]

/-- The check of an extension range accepts the ranges that obey the rules. -/
theorem ExtensionRange.check_eq_ok
    {message : String}
    {fields : List FieldDecl}
    {range : ExtensionRange} :
    range.check message fields = .ok () ↔ range.Lawful fields := by
  unfold ExtensionRange.check
  rw [check_then, refuse_eq_ok, Bool.or_eq_false_iff, Bool.or_eq_false_iff,
    decide_eq_false_iff_not, decide_eq_false_iff_not, decide_eq_false_iff_not, Nat.not_lt,
    Nat.not_lt, Nat.not_lt]
  cases found : fields.find? fun field => range.contains field.tag with
  | none =>
      have free := List.find?_eq_none.mp found
      simp only [ExtensionRange.contains_iff] at free
      constructor
      · rintro ⟨⟨⟨positive, bounded⟩, ordered⟩, -⟩
        exact ⟨positive, ordered, bounded, free⟩
      · intro lawful
        exact ⟨⟨⟨lawful.positive, lawful.bounded⟩, lawful.ordered⟩, rfl⟩
  | some field =>
      have test := List.find?_some found
      have inside := ExtensionRange.contains_iff.mp test
      constructor
      · rintro ⟨-, ⟨⟩⟩
      · exact fun lawful => absurd inside (lawful.free field (List.mem_of_find?_eq_some found))

theorem checkEnumValues_eq_ok {enum : String} {values : List EnumValueDecl} :
    checkEnumValues enum [] values = .ok () ↔ (values.map EnumValueDecl.name).Nodup := by
  have step (earlier : List EnumValueDecl) (value : EnumValueDecl) (others : List EnumValueDecl) :
      checkEnumValues enum earlier (value :: others) = .ok () ↔
        value.name ∉ earlier.map EnumValueDecl.name ∧
          checkEnumValues enum (earlier ++ [value]) others = .ok () := by
    rw [checkEnumValues, check_then, refuse_eq_ok, Keys.any_eq_false]
  rw [Keys.inTurn_iff (fun earlier values => checkEnumValues enum earlier values = .ok ())
    (fun _ => rfl) step, Keys.nodup_iff_inTurn]

/-- The check of an enum accepts the enums that obey the rules. -/
theorem EnumDecl.check_eq_ok {edition : Edition} {scope : String} {enum : EnumDecl} :
    enum.check edition scope = .ok () ↔ enum.Lawful edition := by
  obtain ⟨name, position, values⟩ := enum
  cases values with
  | nil =>
      constructor
      · rintro ⟨⟩
      · exact fun lawful => absurd rfl lawful.nonempty
  | cons first others =>
      simp only [EnumDecl.check]
      rw [check_then, refuse_eq_ok, checkEnumValues_eq_ok]
      constructor
      · rintro ⟨zero, names⟩
        refine ⟨List.cons_ne_nil first others, names, ?_⟩
        simpa using zero
      · intro lawful
        refine ⟨?_, lawful.names⟩
        simpa using lawful.zero

/-- The rules on the fields of an extend block, each field together with those before it. -/
theorem checkExtensionFields_eq_ok {target name : String} {fields : List FieldDecl} :
    checkExtensionFields target name [] fields = .ok () ↔
      (∀ field ∈ fields, field.Lawful) ∧ (∀ field ∈ fields, field.map = none) ∧
        (∀ field ∈ fields, field.label ≠ .required) ∧ (fields.map FieldDecl.tag).Nodup := by
  have step (earlier : List FieldDecl) (field : FieldDecl) (others : List FieldDecl) :
      checkExtensionFields target name earlier (field :: others) = .ok () ↔
        (field.Lawful ∧ field.map = none ∧ field.label ≠ .required ∧
          field.tag ∉ earlier.map FieldDecl.tag) ∧
          checkExtensionFields target name (earlier ++ [field]) others = .ok () := by
    rw [checkExtensionFields, check_then, check_then, check_then, check_then,
      FieldDecl.check_eq_ok, refuse_eq_ok, refuse_eq_ok, refuse_eq_ok, Keys.any_eq_false]
    simp [and_assoc]
  rw [Keys.inTurn_iff
    (fun earlier fields => checkExtensionFields target name earlier fields = .ok ())
    (fun _ => rfl) step]
  simp only [imp_and, forall_and, Keys.forall_inTurn, ← Keys.nodup_iff_inTurn]

/-- The check of an extend block accepts the blocks that obey the rules. -/
theorem ExtendDecl.check_eq_ok {scope : String} {extension : ExtendDecl} :
    extension.check scope = .ok () ↔ extension.Lawful := by
  rw [ExtendDecl.check, checkExtensionFields_eq_ok]
  exact ⟨fun ⟨fields, noMap, notRequired, tags⟩ => ⟨fields, noMap, notRequired, tags⟩,
    fun lawful => ⟨lawful.fields, lawful.noMap, lawful.notRequired, lawful.tags⟩⟩

/-! ### Messages at any depth -/

mutual

/-- The check of a message accepts the messages that obey the rules at every depth. -/
theorem MessageDecl.check_eq_ok {edition : Edition} :
    ∀ (scope : String) (message : MessageDecl), message.check edition scope = .ok () ↔
      ∀ named ∈ message.withNames scope, named.2.Lawful edition
  | scope, ⟨name, position, fields, messages, enums, extensions, ranges⟩ => by
      unfold MessageDecl.check
      simp only
      rw [check_then, check_then, check_then, check_then, checkFields_eq_ok, forM_eq_ok,
        checkMessages_eq_ok (joinName scope name) messages, forM_eq_ok, forM_eq_ok,
        MessageDecl.withNames_eq, List.forall_mem_cons]
      simp only [ExtensionRange.check_eq_ok, EnumDecl.check_eq_ok, ExtendDecl.check_eq_ok]
      constructor
      · rintro ⟨⟨lawful, tags, names, notRequired⟩, ranges, inner, enums, extensions⟩
        exact ⟨⟨lawful, tags, names, notRequired, ranges, enums, extensions⟩, inner⟩
      · rintro ⟨⟨lawful, tags, names, notRequired, ranges, enums, extensions⟩, inner⟩
        exact ⟨⟨lawful, tags, names, notRequired⟩, ranges, inner, enums, extensions⟩

theorem checkMessages_eq_ok {edition : Edition} :
    ∀ (scope : String) (messages : List MessageDecl),
      checkMessages edition scope messages = .ok () ↔
        ∀ named ∈ messagesWithNames scope messages, named.2.Lawful edition
  | scope, [] => iff_of_true rfl (List.forall_mem_nil _)
  | scope, message :: others => by
      unfold checkMessages messagesWithNames
      rw [check_then, MessageDecl.check_eq_ok scope message, checkMessages_eq_ok scope others,
        List.forall_mem_append]

end

/-- The check of a file accepts exactly the files that obey the rules: every message at any depth,
every enum and every extend block, wherever they stand. -/
theorem FileDecl.check_eq_ok_iff (file : FileDecl) : file.check = .ok () ↔ file.Lawful := by
  unfold FileDecl.check
  rw [check_then, check_then, checkMessages_eq_ok, forM_eq_ok, forM_eq_ok]
  simp only [mem_messagesWithNames, EnumDecl.check_eq_ok, ExtendDecl.check_eq_ok]
  exact ⟨fun ⟨messages, enums, extensions⟩ => ⟨messages, enums, extensions⟩,
    fun lawful => ⟨lawful.messages, lawful.enums, lawful.extensions⟩⟩

end Proto

end ProtoWire
