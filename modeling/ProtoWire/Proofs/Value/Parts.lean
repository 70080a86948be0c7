import ProtoWire.Value.Basic

/-!
Contract: the parts of a value, and values that agree in all their parts up to the order of fields.

Owns:
- all values inside of a value, and the values that nothing is inside of;
- values in which no object holds a name twice;
- a value without the empty arrays in its fields;
- sameness up to the order of fields, with floating-point numbers compared by their bits.

Does not own: which values a schema admits.
-/

namespace ProtoWire.Value

/-! ### Parts -/

mutual

/-- A value and all values inside of it. -/
def parts : Value → List Value
  | .array elements => .array elements :: partsOfElements elements
  | .object typeName fields => .object typeName fields :: partsOfFields fields
  | leaf => [leaf]

def partsOfElements : List Value → List Value
  | [] => []
  | element :: others => element.parts ++ partsOfElements others

def partsOfFields : List (String × Value) → List Value
  | [] => []
  | (_, content) :: others => content.parts ++ partsOfFields others

end

theorem mem_partsOfElements {part : Value} {elements : List Value} :
    part ∈ partsOfElements elements ↔ ∃ element ∈ elements, part ∈ element.parts := by
  induction elements with
  | nil => simp [partsOfElements]
  | cons element others inductionHypothesis =>
      rw [partsOfElements, List.mem_append, inductionHypothesis]
      simp

theorem mem_partsOfFields {part : Value} {fields : List (String × Value)} :
    part ∈ partsOfFields fields ↔ ∃ entry ∈ fields, part ∈ entry.2.parts := by
  induction fields with
  | nil => simp [partsOfFields]
  | cons entry others inductionHypothesis =>
      rw [partsOfFields, List.mem_append, inductionHypothesis]
      simp

theorem mem_parts_array {part : Value} {elements : List Value} :
    part ∈ (array elements).parts ↔
      part = .array elements ∨ ∃ element ∈ elements, part ∈ element.parts := by
  rw [parts, List.mem_cons, mem_partsOfElements]

theorem mem_parts_object {part : Value} {typeName : String} {fields : List (String × Value)} :
    part ∈ (object typeName fields).parts ↔
      part = .object typeName fields ∨ ∃ entry ∈ fields, part ∈ entry.2.parts := by
  rw [parts, List.mem_cons, mem_partsOfFields]

/-- Whether an array without elements stands anywhere in a value. -/
def HasEmptyArray (value : Value) : Prop :=
  .array [] ∈ value.parts

theorem hasEmptyArray_array {elements : List Value} :
    (array elements).HasEmptyArray ↔
      elements = [] ∨ ∃ element ∈ elements, element.HasEmptyArray := by
  unfold HasEmptyArray
  rw [mem_parts_array, Value.array.injEq, eq_comm]

theorem hasEmptyArray_object {typeName : String} {fields : List (String × Value)} :
    (object typeName fields).HasEmptyArray ↔ ∃ entry ∈ fields, entry.2.HasEmptyArray := by
  unfold HasEmptyArray
  rw [mem_parts_object]
  simp

/-- No object anywhere in a value holds a name twice, as no field map does that was built by setting
entries. -/
def HasDistinctNames (value : Value) : Prop :=
  ∀ typeName fields, .object typeName fields ∈ value.parts → (FieldMap.keys fields).Nodup

theorem HasDistinctNames.element {elements : List Value} {element : Value}
    (distinct : (array elements).HasDistinctNames)
    (member : element ∈ elements) :
    element.HasDistinctNames :=
  fun typeName fields inside =>
    distinct typeName fields (mem_parts_array.mpr (.inr ⟨element, member, inside⟩))

theorem HasDistinctNames.content
    {typeName : String}
    {fields : List (String × Value)}
    {entry : String × Value}
    (distinct : (object typeName fields).HasDistinctNames)
    (member : entry ∈ fields) :
    entry.2.HasDistinctNames :=
  fun innerName inner inside =>
    distinct innerName inner (mem_parts_object.mpr (.inr ⟨entry, member, inside⟩))

theorem HasDistinctNames.keys {typeName : String} {fields : List (String × Value)}
    (distinct : (object typeName fields).HasDistinctNames) :
    (FieldMap.keys fields).Nodup :=
  distinct typeName fields (mem_parts_object.mpr (.inl rfl))

/-! ### Leaves -/

/-- A value that is neither an array nor an object. -/
structure IsLeaf (value : Value) : Prop where
  noArray : ∀ elements, value ≠ .array elements
  noObject : ∀ typeName fields, value ≠ .object typeName fields

theorem IsLeaf.parts_eq {value : Value} (leaf : value.IsLeaf) : value.parts = [value] := by
  cases value with
  | array elements => exact absurd rfl (leaf.noArray elements)
  | object typeName fields => exact absurd rfl (leaf.noObject typeName fields)
  | _ => simp [parts]

theorem IsLeaf.not_hasEmptyArray {value : Value} (leaf : value.IsLeaf) : ¬ value.HasEmptyArray := by
  rw [HasEmptyArray, leaf.parts_eq, List.mem_singleton]
  exact (leaf.noArray []).symm

/-! ### Empty arrays -/

mutual

/-- A value without the fields that hold empty arrays. -/
def withoutEmptyArrays : Value → Value
  | .array elements => .array (elementsWithoutEmptyArrays elements)
  | .object typeName fields => .object typeName (fieldsWithoutEmptyArrays fields)
  | leaf => leaf

def elementsWithoutEmptyArrays : List Value → List Value
  | [] => []
  | element :: others => element.withoutEmptyArrays :: elementsWithoutEmptyArrays others

def fieldsWithoutEmptyArrays : List (String × Value) → List (String × Value)
  | [] => []
  | (_, .array []) :: others => fieldsWithoutEmptyArrays others
  | (name, content) :: others =>
      (name, content.withoutEmptyArrays) :: fieldsWithoutEmptyArrays others

end

theorem elementsWithoutEmptyArrays_eq (elements : List Value) :
    elementsWithoutEmptyArrays elements = elements.map withoutEmptyArrays := by
  induction elements with
  | nil => rw [elementsWithoutEmptyArrays, List.map_nil]
  | cons element others inductionHypothesis =>
      rw [elementsWithoutEmptyArrays, List.map_cons, inductionHypothesis]

/-- What is left of an entry: nothing if it holds an empty array. -/
def keptEntry? (entry : String × Value) : Option (String × Value) :=
  match entry.2 with
  | .array [] => none
  | content => some (entry.1, content.withoutEmptyArrays)

theorem keptEntry?_name {entry kept : String × Value} (same : keptEntry? entry = some kept) :
    kept.1 = entry.1 := by
  unfold keptEntry? at same
  split at same
  · cases same
  · cases same
    rfl

theorem keptEntry?_of_ne {content : Value} (filled : content ≠ .array []) (name : String) :
    keptEntry? (name, content) = some (name, content.withoutEmptyArrays) := by
  unfold keptEntry?
  split
  · rename_i empty
    exact absurd empty filled
  · rfl

theorem fieldsWithoutEmptyArrays_eq (fields : List (String × Value)) :
    fieldsWithoutEmptyArrays fields = fields.filterMap keptEntry? := by
  induction fields with
  | nil => rw [fieldsWithoutEmptyArrays, List.filterMap_nil]
  | cons entry others inductionHypothesis =>
      obtain ⟨name, content⟩ := entry
      rw [List.filterMap_cons, ← inductionHypothesis]
      unfold keptEntry?
      split
      · rename_i dropped
        split at dropped
        · rename_i empty
          obtain rfl : content = .array [] := empty
          rw [fieldsWithoutEmptyArrays]
        · cases dropped
      · rename_i entry kept
        split at kept
        · cases kept
        · rename_i filled
          cases kept
          rw [fieldsWithoutEmptyArrays]
          exact filled

mutual

theorem withoutEmptyArrays_eq_self :
    ∀ value : Value, ¬ value.HasEmptyArray → value.withoutEmptyArrays = value
  | .array elements, full => by
      rw [hasEmptyArray_array, not_or] at full
      rw [withoutEmptyArrays, elementsWithoutEmptyArrays_eq_self elements fun element member has =>
        full.2 ⟨element, member, has⟩]
  | .object typeName fields, full => by
      rw [hasEmptyArray_object] at full
      rw [withoutEmptyArrays, fieldsWithoutEmptyArrays_eq_self fields fun entry member has =>
        full ⟨entry, member, has⟩]
  | .bool _, _ | .int32 _, _ | .int64 _, _ | .uint32 _, _ | .uint64 _, _ | .float _, _
  | .double _, _ | .string _, _ | .bytes _, _ | .enum _ _, _ => by
      rw [withoutEmptyArrays] <;> exact nofun

private theorem elementsWithoutEmptyArrays_eq_self :
    ∀ elements : List Value, (∀ element ∈ elements, ¬ element.HasEmptyArray) →
      elementsWithoutEmptyArrays elements = elements
  | [], _ => by rw [elementsWithoutEmptyArrays]
  | element :: others, full => by
      rw [elementsWithoutEmptyArrays,
        withoutEmptyArrays_eq_self element (full element List.mem_cons_self),
        elementsWithoutEmptyArrays_eq_self others fun other member =>
          full other (List.mem_cons_of_mem element member)]

private theorem fieldsWithoutEmptyArrays_eq_self :
    ∀ fields : List (String × Value), (∀ entry ∈ fields, ¬ entry.2.HasEmptyArray) →
      fieldsWithoutEmptyArrays fields = fields
  | [], _ => by rw [fieldsWithoutEmptyArrays]
  | (name, content) :: others, full => by
      have first := full (name, content) List.mem_cons_self
      have filled : content ≠ .array [] := by
        rintro rfl
        exact first (hasEmptyArray_array.mpr (.inl rfl))
      rw [fieldsWithoutEmptyArrays, withoutEmptyArrays_eq_self content first,
        fieldsWithoutEmptyArrays_eq_self others fun other member =>
          full other (List.mem_cons_of_mem _ member)]
      exact filled

end

/-! ### Sameness -/

mutual

/-- Whether two values are the same up to the order of the fields of their objects, at any depth.
Numbers are compared by their bits. -/
def SameUpToOrder : Value → Value → Prop
  | .array elements, other => ∃ others, other = .array others ∧ SameElements elements others
  | .object typeName fields, other =>
      ∃ others ordered, other = .object typeName others ∧ others.Perm ordered ∧
        SameFields fields ordered
  | leaf, other => leaf = other

def SameElements : List Value → List Value → Prop
  | [], others => others = []
  | element :: elements, others =>
      ∃ first rest, others = first :: rest ∧ element.SameUpToOrder first ∧
        SameElements elements rest

def SameFields : List (String × Value) → List (String × Value) → Prop
  | [], others => others = []
  | (name, content) :: fields, others =>
      ∃ first rest, others = (name, first) :: rest ∧ content.SameUpToOrder first ∧
        SameFields fields rest

end

mutual

theorem SameUpToOrder.refl : ∀ value : Value, value.SameUpToOrder value
  | .array elements => by
      rw [SameUpToOrder]
      exact ⟨elements, rfl, SameElements.refl elements⟩
  | .object typeName fields => by
      rw [SameUpToOrder]
      exact ⟨fields, fields, rfl, List.Perm.refl fields, SameFields.refl fields⟩
  | .bool _ | .int32 _ | .int64 _ | .uint32 _ | .uint64 _ | .float _ | .double _ | .string _
  | .bytes _ | .enum _ _ => by
      rw [SameUpToOrder] <;> exact nofun

private theorem SameElements.refl : ∀ elements : List Value, SameElements elements elements
  | [] => by rw [SameElements]
  | element :: elements => by
      rw [SameElements]
      exact ⟨element, elements, rfl, SameUpToOrder.refl element, SameElements.refl elements⟩

private theorem SameFields.refl : ∀ fields : List (String × Value), SameFields fields fields
  | [] => by rw [SameFields]
  | (name, content) :: fields => by
      rw [SameFields]
      exact ⟨content, fields, rfl, SameUpToOrder.refl content, SameFields.refl fields⟩

end

theorem sameElements_map
    {first second : Value → Value}
    {elements : List Value}
    (same : ∀ element ∈ elements, (first element).SameUpToOrder (second element)) :
    SameElements (elements.map first) (elements.map second) := by
  induction elements with
  | nil => rw [List.map_nil, List.map_nil, SameElements]
  | cons element others inductionHypothesis =>
      rw [List.map_cons, List.map_cons, SameElements]
      exact ⟨_, _, rfl, same element List.mem_cons_self,
        inductionHypothesis fun other member => same other (List.mem_cons_of_mem element member)⟩

theorem sameFields_filterMap
    {α : Type}
    {first second : α → Option (String × Value)}
    {items : List α}
    (same : ∀ item ∈ items,
      first item = none ∧ second item = none ∨
        ∃ name left right, first item = some (name, left) ∧ second item = some (name, right) ∧
          left.SameUpToOrder right) :
    SameFields (items.filterMap first) (items.filterMap second) := by
  induction items with
  | nil => rw [List.filterMap_nil, List.filterMap_nil, SameFields]
  | cons item others inductionHypothesis =>
      have rest := inductionHypothesis fun other member =>
        same other (List.mem_cons_of_mem item member)
      rw [List.filterMap_cons, List.filterMap_cons]
      rcases same item List.mem_cons_self with
        ⟨firstNone, secondNone⟩ | ⟨name, left, right, firstSome, secondSome, agree⟩
      · rw [firstNone, secondNone]
        exact rest
      · rw [firstSome, secondSome]
        simp only
        rw [SameFields]
        exact ⟨right, _, rfl, agree, rest⟩

mutual

/-- Values that are the same up to order have empty arrays or have none alike. -/
theorem SameUpToOrder.hasEmptyArray_iff :
    ∀ value other : Value, value.SameUpToOrder other → (value.HasEmptyArray ↔ other.HasEmptyArray)
  | .array elements, other, same => by
      rw [SameUpToOrder] at same
      obtain ⟨others, rfl, same⟩ := same
      have iff := SameElements.hasEmptyArray_iff elements others same
      rw [hasEmptyArray_array, hasEmptyArray_array, iff.1, iff.2]
  | .object typeName fields, other, same => by
      rw [SameUpToOrder] at same
      obtain ⟨others, ordered, rfl, permuted, same⟩ := same
      rw [hasEmptyArray_object, hasEmptyArray_object,
        SameFields.hasEmptyArray_iff fields ordered same]
      simp only [permuted.mem_iff]
  | .bool _, other, same | .int32 _, other, same | .int64 _, other, same | .uint32 _, other, same
  | .uint64 _, other, same | .float _, other, same | .double _, other, same
  | .string _, other, same | .bytes _, other, same | .enum _ _, other, same => by
      rw [SameUpToOrder] at same
      · rw [same]
      all_goals exact nofun

private theorem SameElements.hasEmptyArray_iff :
    ∀ elements others : List Value, SameElements elements others →
      (elements = [] ↔ others = []) ∧
        ((∃ element ∈ elements, element.HasEmptyArray) ↔ ∃ other ∈ others, other.HasEmptyArray)
  | [], others, same => by
      rw [SameElements] at same
      subst same
      exact ⟨Iff.rfl, Iff.rfl⟩
  | element :: elements, others, same => by
      rw [SameElements] at same
      obtain ⟨first, rest, rfl, sameFirst, sameRest⟩ := same
      have firstIff := SameUpToOrder.hasEmptyArray_iff element first sameFirst
      have restIff := (SameElements.hasEmptyArray_iff elements rest sameRest).2
      simp [firstIff, restIff]

private theorem SameFields.hasEmptyArray_iff :
    ∀ fields others : List (String × Value), SameFields fields others →
      ((∃ entry ∈ fields, entry.2.HasEmptyArray) ↔ ∃ entry ∈ others, entry.2.HasEmptyArray)
  | [], others, same => by
      rw [SameFields] at same
      subst same
      exact Iff.rfl
  | (name, content) :: fields, others, same => by
      rw [SameFields] at same
      obtain ⟨first, rest, rfl, sameFirst, sameRest⟩ := same
      have firstIff := SameUpToOrder.hasEmptyArray_iff content first sameFirst
      have restIff := SameFields.hasEmptyArray_iff fields rest sameRest
      simp only [List.mem_cons, exists_eq_or_imp, firstIff, restIff]

end

end ProtoWire.Value
