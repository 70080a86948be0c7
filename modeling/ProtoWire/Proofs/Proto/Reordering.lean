import ProtoWire.Proofs.Proto.Requests
import ProtoWire.Proofs.Schema.Naming

/-!
Contract: schemas that hold the same definitions in different orders give the same meaning to every
declaration. Types are found by names, so that what is found has the same name in both schemas, and
what cannot be found fails alike.

Owns:
- the meaning of type names and fields in reordered schemas;
- the additions and the requests of files in reordered schemas.

Does not own: adding what was found.
-/

namespace ProtoWire

open Outcome

/-- An addition with the name of its type. -/
def namedAddition (schema : Schema) (addition : String × Field) : String × NamedField :=
  (addition.1, addition.2.named schema)

theorem namedAddition_of_outline {schema other : Schema} (same : other.outline = schema.outline) :
    namedAddition other = namedAddition schema := by
  funext addition
  rw [namedAddition, namedAddition, Schema.named_of_outline same]

namespace Proto

theorem has_of_resolveType
    {schema : Schema}
    {scope name : String}
    {type : TypeRef}
    (resolved : resolveType schema scope name = some type) :
    schema.Has type := by
  cases type with
  | scalar type => trivial
  | definition index =>
      obtain ⟨definition, found⟩ := exists_of_resolveType resolved
      exact (List.getElem?_eq_some_iff.mp found).1

theorem has_of_lower
    {schema : Schema}
    {edition : Edition}
    {scope message : String}
    {declaration : FieldDecl}
    {field : Field}
    (ok : declaration.lower schema edition scope message = .ok field) :
    schema.Has field.type :=
  Schema.has_of_isFieldType (FieldDecl.lower_eq_ok ok).2.2.1

theorem IsLowered.has {schema : Schema} {field : Field} (lowered : IsLowered schema field) :
    schema.Has field.type := by
  obtain ⟨_, _, _, _, ok⟩ := lowered
  exact has_of_lower ok

section Reordered

variable
  {schema other : Schema}
  (reorders : schema.Reorders other)

include reorders

theorem resolveType_reordered (scope name : String) :
    (resolveType schema scope name).map schema.nameOf =
      (resolveType other scope name).map other.nameOf := by
  have found (full : String) :
      ((schema.indexOf? full).map TypeRef.definition).map schema.nameOf =
        ((other.indexOf? full).map TypeRef.definition).map other.nameOf := by
    rw [Option.map_map, Option.map_map]
    exact reorders.map_indexOf? full
  unfold resolveType resolveTypeBy
  split
  · exact found _
  · split
    · rfl
    · rw [List.map_findSome?, List.map_findSome?]
      congr 1
      funext outer
      exact found _

theorem isFieldType_reordered
    {first second : TypeRef}
    (firstHas : schema.Has first)
    (secondHas : other.Has second)
    (same : schema.nameOf first = other.nameOf second) :
    isFieldType schema first = isFieldType other second := by
  obtain ⟨type, rfl, rfl⟩ |
      ⟨index, place, name, kind, again, rfl, rfl, found, otherFound, outlines⟩ :=
    reorders.alike firstHas secondHas same
  · rfl
  · rw [← isFieldType_outline, ← isFieldType_outline other, isFieldType, isFieldType,
      Schema.definition?_outline, Schema.definition?_outline, found, otherFound]
    simp only [Option.map_some, Definition.outline, outlines]

/-- A declaration stands for the same field, or fails for the same reason. -/
theorem lower_reordered
    (edition : Edition)
    (scope message : String)
    (field : FieldDecl) :
    Field.named schema <$> field.lower schema edition scope message =
      Field.named other <$> field.lower other edition scope message := by
  have alike := resolveType_reordered reorders scope field.type
  unfold FieldDecl.lower FieldDecl.lowerAs
  cases resolved : resolveType schema scope field.type with
  | none =>
      rw [resolved] at alike
      rw [Option.map_eq_none_iff.mp alike.symm]
      rfl
  | some first =>
      rw [resolved] at alike
      obtain ⟨second, otherResolved, same⟩ := Option.map_eq_some_iff.mp alike.symm
      have firstHas := has_of_resolveType resolved
      have secondHas := has_of_resolveType otherResolved
      have legal := isFieldType_reordered reorders firstHas secondHas same.symm
      have wire := reorders.wireType firstHas secondHas same.symm
      rw [otherResolved]
      cases allowed : isFieldType schema first with
      | false =>
          rw [allowed] at legal
          simp only [Option.filter_some, allowed, ← legal]
          rfl
      | true =>
          rw [allowed] at legal
          simp only [Option.filter_some, allowed, ← legal, if_true, map_ok, Field.named, wire, same]

/-! ### Additions -/

private theorem resolve_reordered (name : String) :
    schema.nameOf <$> (schema.resolve name).mapError SourceError.wire =
      other.nameOf <$> (other.resolve name).mapError SourceError.wire := by
  have found := reorders.map_indexOf? name
  unfold Schema.resolve
  cases Scalar.ofName? name with
  | some type => rfl
  | none =>
      cases place : schema.indexOf? name with
      | none =>
          rw [place] at found
          rw [Option.map_eq_none_iff.mp found.symm]
          rfl
      | some index =>
          rw [place] at found
          obtain ⟨again, otherPlace, same⟩ := Option.map_eq_some_iff.mp found.symm
          rw [otherPlace]
          exact congrArg Except.ok same.symm

theorem additions_reordered
    (edition : Edition)
    (message : String)
    (field : FieldDecl) :
    List.map (namedAddition schema) <$> field.additions schema edition message =
      List.map (namedAddition other) <$> field.additions other edition message := by
  unfold FieldDecl.additions
  cases declared : field.map with
  | none =>
      simp only
      obtain ⟨cause, firstError, secondError⟩ | ⟨first, second, firstOk, secondOk, same⟩ :=
        map_eq_map.mp (lower_reordered reorders edition message message field)
      · rw [firstError, secondError]
        rfl
      · rw [firstOk, secondOk]
        exact congrArg (fun named => Except.ok [(message, named)]) same
  | some map =>
      simp only
      obtain ⟨cause, firstError, secondError⟩ | ⟨key, otherKey, firstOk, secondOk, sameKey⟩ :=
        map_eq_map.mp (lower_reordered reorders edition message
          (mapEntryName message field.name) (entryField field "key" 1 map.key))
      · rw [firstError, secondError]
        rfl
      rw [firstOk, secondOk, ok_bind, ok_bind]
      obtain ⟨cause, firstError, secondError⟩ | ⟨value, otherValue, firstOk, secondOk, sameValue⟩ :=
        map_eq_map.mp (lower_reordered reorders edition message
          (mapEntryName message field.name) (entryField field "value" 2 map.value))
      · rw [firstError, secondError]
        rfl
      rw [firstOk, secondOk, ok_bind, ok_bind]
      obtain ⟨cause, firstError, secondError⟩ | ⟨type, otherType, firstOk, secondOk, sameType⟩ :=
        map_eq_map.mp (resolve_reordered reorders (mapEntryName message field.name))
      · rw [firstError, secondError]
        rfl
      rw [firstOk, secondOk, ok_bind, ok_bind]
      have sameField : (Field.mk field.name field.tag type .repeated false).named schema =
          (Field.mk field.name field.tag otherType .repeated false).named other := by
        simp only [Field.named, sameType]
      simp only [pure, Except.pure, map_ok, List.map_cons, List.map_nil, namedAddition, sameKey,
        sameValue, sameField]

theorem fileAdditions_reordered (file : FileDecl) :
    List.map (namedAddition schema) <$> file.additions schema =
      List.map (namedAddition other) <$> file.additions other :=
  flatten_mapM_alike fun named _ =>
    flatten_mapM_alike fun field _ => additions_reordered reorders file.edition named.1 field

/-! ### Requests -/

/-- An extend block extends the message with the same name. -/
theorem extensionTarget?_reordered (scope name : String) :
    extensionTarget? schema scope name = extensionTarget? other scope name := by
  have forward {first second : Schema} (reorders : first.Reorders second) {target : String}
      (targeted : extensionTarget? first scope name = some target) :
      extensionTarget? second scope name = some target := by
    obtain ⟨index, message, resolved, found⟩ := extensionTarget?_eq_some.mp targeted
    have alike := resolveType_reordered reorders scope name
    rw [resolved] at alike
    obtain ⟨type, otherResolved, same⟩ := Option.map_eq_some_iff.mp alike.symm
    obtain ⟨_, ⟨⟩, -⟩ | ⟨_, place, full, kind, again, ⟨⟩, rfl, firstFound, otherFound, outlines⟩ :=
      reorders.alike (has_of_resolveType resolved) (has_of_resolveType otherResolved) same.symm
    cases found.symm.trans firstFound
    cases again with
    | message type =>
        exact extensionTarget?_eq_some.mpr ⟨place, type, otherResolved, otherFound⟩
    | enum type => cases outlines
    | framed type => cases outlines
  apply Option.ext
  exact fun target => ⟨forward reorders, forward reorders.symm⟩

theorem blockRequests_reordered (edition : Edition) (block : String × ExtendDecl) :
    List.map (namedAddition schema) <$> blockRequests edition schema block =
      List.map (namedAddition other) <$> blockRequests edition other block := by
  unfold blockRequests
  rw [extensionTarget?_reordered reorders]
  cases extensionTarget? other block.1 block.2.name with
  | none => rfl
  | some target =>
      refine flatten_mapM_alike fun field _ => ?_
      unfold FieldDecl.request
      obtain ⟨cause, firstError, secondError⟩ | ⟨first, second, firstOk, secondOk, same⟩ :=
        map_eq_map.mp (lower_reordered reorders edition block.1 target field)
      · rw [firstError, secondError]
        rfl
      · rw [firstOk, secondOk]
        exact congrArg (fun named => Except.ok [(target, named)]) same

theorem requests_reordered (file : FileDecl) :
    List.map (namedAddition schema) <$> file.requests schema =
      List.map (namedAddition other) <$> file.requests other :=
  flatten_mapM_alike fun block _ => blockRequests_reordered reorders file.edition block

end Reordered

/-! ### Conflicts -/

section Mirrored

variable
  {schema other : Schema}

/-- Fields that agree in one schema agree in every other schema that shows them alike. -/
private theorem agrees_of_named
    (distinct : (other.definitions.map Definition.name).Nodup)
    {first second again later : Field}
    (agrees : first.Agrees second)
    (sameFirst : first.named schema = again.named other)
    (sameSecond : second.named schema = later.named other)
    (againHas : other.Has again.type)
    (laterHas : other.Has later.type) :
    again.Agrees later := by
  intro clash
  have sameTags : first.tag = again.tag ∧ second.tag = later.tag :=
    ⟨congrArg NamedField.tag sameFirst, congrArg NamedField.tag sameSecond⟩
  have sameNames : first.name = again.name ∧ second.name = later.name :=
    ⟨congrArg NamedField.name sameFirst, congrArg NamedField.name sameSecond⟩
  rw [← sameTags.1, ← sameTags.2, ← sameNames.1, ← sameNames.2] at clash
  obtain rfl := agrees clash
  exact Schema.named_injective distinct againHas laterHas (sameFirst.symm.trans sameSecond)

/-- Messages that show the same fields have the fields that look alike. -/
private theorem mem_of_named
    (wellFormed : other.WellFormed)
    {message again : MessageType}
    {name : String}
    (member : ⟨name, .message again⟩ ∈ other.definitions)
    (fields : message.fields.map (Field.named schema) = again.fields.map (Field.named other))
    {field later : Field}
    (same : field.named schema = later.named other)
    (has : other.Has later.type)
    (present : field ∈ message.fields) :
    later ∈ again.fields := by
  have shown : field.named schema ∈ again.fields.map (Field.named other) :=
    fields ▸ List.mem_map_of_mem present
  obtain ⟨known, knownMember, equal⟩ := List.mem_map.mp shown
  have knownHas := Schema.has_of_isFieldType
    ((wellFormed.messages _ _ member).fields known knownMember).type
  rwa [← Schema.named_injective wellFormed.names knownHas has (equal.trans same)]

/-- Messages that show the same fields accept the fields that look alike. -/
private theorem accepts_of_named
    (wellFormed : other.WellFormed)
    {message again : MessageType}
    {name : String}
    (member : ⟨name, .message again⟩ ∈ other.definitions)
    (ranges : again.extensionRanges = message.extensionRanges)
    (fields : message.fields.map (Field.named schema) = again.fields.map (Field.named other))
    {field later : Field}
    (same : field.named schema = later.named other)
    (has : other.Has later.type)
    (accepts : message.Accepts field) :
    again.Accepts later := by
  rcases accepts with present | ⟨freshTag, freshName, inRange⟩
  · exact .inl (mem_of_named wellFormed member fields same has present)
  · have tags : message.fields.map Field.tag = again.fields.map Field.tag := by
      have shown := congrArg (List.map NamedField.tag) fields
      rwa [List.map_map, List.map_map] at shown
    have names : message.fields.map Field.name = again.fields.map Field.name := by
      have shown := congrArg (List.map NamedField.name) fields
      rwa [List.map_map, List.map_map] at shown
    have sameTag : field.tag = later.tag := congrArg NamedField.tag same
    have sameName : field.name = later.name := congrArg NamedField.name same
    rw [tags, sameTag] at freshTag
    rw [names, sameName] at freshName
    rw [MessageType.inExtensionRange, ← ranges, sameTag] at inRange
    exact .inr ⟨freshTag, freshName, inRange⟩

theorem hasField_of_mirrors
    (mirrors : schema.Mirrors other)
    (wellFormed : other.WellFormed)
    {request again : String × Field}
    (same : namedAddition schema request = namedAddition other again)
    (has : other.Has again.2.type)
    (there : HasField schema request) :
    HasField other again := by
  obtain ⟨message, member, present⟩ := there
  obtain ⟨later, otherMember, -, fields⟩ := mirrors.exists_message member
  obtain ⟨target, sameField⟩ := Prod.mk.inj same
  rw [target] at otherMember
  exact ⟨later, otherMember,
    mem_of_named wellFormed otherMember fields sameField has present⟩

theorem fits_of_mirrors
    (mirrors : schema.Mirrors other)
    (wellFormed : other.WellFormed)
    {request again : String × Field}
    (same : namedAddition schema request = namedAddition other again)
    (has : other.Has again.2.type)
    (fits : Fits schema request) :
    Fits other again := by
  obtain ⟨message, member, accepts⟩ := fits
  obtain ⟨later, otherMember, ranges, fields⟩ := mirrors.exists_message member
  obtain ⟨target, sameField⟩ := Prod.mk.inj same
  rw [target] at otherMember
  exact ⟨later, otherMember,
    accepts_of_named wellFormed otherMember ranges fields sameField has accepts⟩

/-- Fields are compatible if they look like fields that are compatible. -/
theorem compatible_of_mirrors
    (mirrors : schema.Mirrors other)
    (wellFormed : other.WellFormed)
    {requests again : List (String × Field)}
    (alike : ∀ later ∈ again, ∃ request ∈ requests,
      namedAddition schema request = namedAddition other later)
    (has : ∀ later ∈ again, other.Has later.2.type)
    (compatible : Compatible schema requests) :
    Compatible other again := by
  constructor
  · intro later member
    obtain ⟨request, inside, same⟩ := alike later member
    exact fits_of_mirrors mirrors wellFormed same (has later member)
      (compatible.fits request inside)
  · intro first firstMember second secondMember target
    obtain ⟨request, inside, same⟩ := alike first firstMember
    obtain ⟨wanted, wantedMember, sameWanted⟩ := alike second secondMember
    obtain ⟨requestTarget, sameFirst⟩ := Prod.mk.inj same
    obtain ⟨wantedTarget, sameSecond⟩ := Prod.mk.inj sameWanted
    have targets : request.1 = wanted.1 := requestTarget.trans (target.trans wantedTarget.symm)
    exact agrees_of_named wellFormed.names
      (compatible.agree request inside wanted wantedMember targets) sameFirst sameSecond
      (has first firstMember) (has second secondMember)

end Mirrored

end Proto

end ProtoWire
