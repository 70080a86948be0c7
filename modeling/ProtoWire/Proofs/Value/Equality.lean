import Mathlib.Data.List.Forall2
import Mathlib.Data.List.Perm.Subperm
import ProtoWire.Proofs.History
import ProtoWire.Proofs.Value.Parts

/-!
Contract: equality of values is an equivalence, and the order of the fields of an object is all
that it ignores.

Owns:
- equality of floating-point numbers, of arrays and of objects, each by what it compares;
- induction over a value and what lies inside of it;
- values that are built by operations on field maps, and values without NaN.

Does not own: which values a schema tells apart.
-/

namespace ProtoWire

/-! ### Floating-point numbers -/

namespace FloatFormat

variable {format : FloatFormat} {first second third : Nat}

/-- A bit pattern stands for one of the two zeros. -/
def IsZero (format : FloatFormat) (bits : Nat) : Prop :=
  ∃ negative exponent narrowBelow, format.number bits = .finite negative 0 exponent narrowBelow

theorem IsZero.ne_nan (zero : format.IsZero first) : format.number first ≠ .nan := by
  obtain ⟨negative, exponent, narrowBelow, number⟩ := zero
  simp [number]

/-- Numbers are equal if their bits are, or if both are zero. NaN is equal to nothing. -/
theorem equal_eq_true :
    format.equal first second = true ↔
      format.number first ≠ .nan ∧ first = second ∨ format.IsZero first ∧ format.IsZero second := by
  unfold equal
  split
  · rename_i nan
    have notZero : ¬ format.IsZero first := fun zero => zero.ne_nan nan
    simp [nan, notZero]
  · rename_i nan notNaN
    have notZero : ¬ format.IsZero second := fun zero => zero.ne_nan nan
    have different : first ≠ second := by
      rintro rfl
      exact notNaN nan
    simp [notZero, different]
  · rename_i firstZero secondZero
    exact ⟨fun _ => .inr ⟨⟨_, _, _, firstZero⟩, _, _, _, secondZero⟩, fun _ => rfl⟩
  · rename_i notNaN _ notBothZero
    have notZero : ¬ (format.IsZero first ∧ format.IsZero second) := by
      rintro ⟨⟨_, _, _, firstZero⟩, _, _, _, secondZero⟩
      exact notBothZero _ _ _ _ _ _ firstZero secondZero
    have number : format.number first ≠ .nan := notNaN
    simp [notZero, number]

theorem equal_self (notNaN : format.number first ≠ .nan) : format.equal first first = true :=
  equal_eq_true.mpr (.inl ⟨notNaN, rfl⟩)

theorem equal_symm (same : format.equal first second = true) :
    format.equal second first = true := by
  rw [equal_eq_true] at same ⊢
  rcases same with ⟨notNaN, rfl⟩ | ⟨firstZero, secondZero⟩
  · exact .inl ⟨notNaN, rfl⟩
  · exact .inr ⟨secondZero, firstZero⟩

theorem equal_trans
    (front : format.equal first second = true)
    (back : format.equal second third = true) :
    format.equal first third = true := by
  rw [equal_eq_true] at front back ⊢
  rcases front with ⟨notNaN, rfl⟩ | ⟨firstZero, secondZero⟩
  · exact back
  · rcases back with ⟨-, rfl⟩ | ⟨-, thirdZero⟩
    · exact .inr ⟨firstZero, secondZero⟩
    · exact .inr ⟨firstZero, thirdZero⟩

end FloatFormat

namespace Value

/-! ### What is compared -/

-- Most lemmas below open these definitions, so their equations are at hand.
attribute [local simp] equal equalElements equalFields

theorem equalFields_eq_true {fields others : List (String × Value)} :
    equalFields fields others = true ↔
      ∀ entry ∈ fields, ∃ content, FieldMap.get? others entry.1 = some content ∧
        entry.2.equal content = true := by
  induction fields with
  | nil => simp
  | cons entry rest inductionHypothesis =>
      obtain ⟨name, content⟩ := entry
      rw [equalFields, Bool.and_eq_true, inductionHypothesis, List.forall_mem_cons]
      cases FieldMap.get? others name <;> simp

/-- Two objects are compared as the names of their types and field by field, by name. -/
theorem equal_object
    {typeName otherName : String}
    {fields others : List (String × Value)} :
    (object typeName fields).equal (.object otherName others) = true ↔
      typeName = otherName ∧ fields.length = others.length ∧
        ∀ entry ∈ fields, ∃ content, FieldMap.get? others entry.1 = some content ∧
          entry.2.equal content = true := by
  rw [equal, Bool.and_eq_true, Bool.and_eq_true, equalFields_eq_true, beq_iff_eq, beq_iff_eq,
    and_assoc]

/-- Leaves are equal if they are the same, or if they are equal as floating-point numbers. -/
theorem leaf_cases {first second : Value}
    (leaf : first.IsLeaf)
    (same : first.equal second = true) :
    first = second ∨
      (∃ left right, first = .float left ∧ second = .float right ∧
        FloatFormat.single.equal left.toNat right.toNat = true) ∨
      ∃ left right, first = .double left ∧ second = .double right ∧
        FloatFormat.double.equal left.toNat right.toNat = true := by
  cases first with
  | float left =>
      cases second with
      | float right => exact .inr (.inl ⟨left, right, rfl, rfl, same⟩)
      | _ => simp at same
  | double left =>
      cases second with
      | double right => exact .inr (.inr ⟨left, right, rfl, rfl, same⟩)
      | _ => simp at same
  | array elements => exact absurd rfl (leaf.noArray elements)
  | object typeName fields => exact absurd rfl (leaf.noObject typeName fields)
  | _ => cases second <;> simp_all

theorem eq_array_of_equal {elements : List Value} {other : Value}
    (same : (array elements).equal other = true) :
    ∃ others, other = .array others ∧ equalElements elements others = true := by
  cases other with
  | array others => exact ⟨others, rfl, by rwa [equal] at same⟩
  | _ => simp at same

theorem eq_object_of_equal
    {typeName : String}
    {fields : List (String × Value)}
    {other : Value}
    (same : (object typeName fields).equal other = true) :
    ∃ others, other = .object typeName others := by
  cases other with
  | object otherName others =>
      obtain ⟨rfl, -⟩ := equal_object.mp same
      exact ⟨others, rfl⟩
  | _ => simp at same

/-! ### Induction -/

/-- What holds of leaves, and of arrays and objects if it holds of all that is inside of them,
holds of every value. -/
@[elab_as_elim]
theorem inductionOn
    {motive : Value → Prop}
    (leaf : ∀ value : Value, value.IsLeaf → motive value)
    (array : ∀ elements, (∀ element ∈ elements, motive element) → motive (.array elements))
    (object : ∀ typeName fields, (∀ entry ∈ fields, motive entry.2) →
      motive (.object typeName fields))
    (value : Value) :
    motive value := by
  cases value with
  | array elements =>
      exact array elements fun element member => inductionOn leaf array object element
  | object typeName fields =>
      exact object typeName fields fun entry member => inductionOn leaf array object entry.2
  | _ => exact leaf _ ⟨by simp, by simp⟩
termination_by sizeOf value
decreasing_by
  · have smaller := List.sizeOf_lt_of_mem member
    rw [Value.array.sizeOf_spec]
    omega
  · have smaller := List.sizeOf_lt_of_mem member
    obtain ⟨name, content⟩ := entry
    rw [Prod.mk.sizeOf_spec] at smaller
    rw [Value.object.sizeOf_spec]
    show sizeOf content < _
    omega

/-! ### Equivalence -/

/-- No floating-point number anywhere in a value is NaN. -/
structure HasNoNaN (value : Value) : Prop where
  single : ∀ bits, .float bits ∈ value.parts → FloatFormat.single.number bits.toNat ≠ .nan
  double : ∀ bits, .double bits ∈ value.parts → FloatFormat.double.number bits.toNat ≠ .nan

theorem HasNoNaN.of_parts {value part : Value}
    (noNaN : value.HasNoNaN)
    (inside : ∀ inner ∈ part.parts, inner ∈ value.parts) :
    part.HasNoNaN where
  single bits member := noNaN.single bits (inside _ member)
  double bits member := noNaN.double bits (inside _ member)

theorem equalElements_self {elements : List Value}
    (alike : ∀ element ∈ elements, element.equal element = true) :
    equalElements elements elements = true := by
  induction elements with
  | nil => rfl
  | cons element others inductionHypothesis =>
      rw [List.forall_mem_cons] at alike
      rw [equalElements, alike.1, inductionHypothesis alike.2]
      rfl

theorem equal_self {value : Value} (distinct : value.HasDistinctNames) (noNaN : value.HasNoNaN) :
    value.equal value = true := by
  induction value using inductionOn with
  | leaf value leaf =>
      cases value with
      | float bits => exact FloatFormat.equal_self (noNaN.single bits (by simp [parts]))
      | double bits => exact FloatFormat.equal_self (noNaN.double bits (by simp [parts]))
      | array elements => exact absurd rfl (leaf.noArray elements)
      | object typeName fields => exact absurd rfl (leaf.noObject typeName fields)
      | _ => simp
  | array elements inductionHypothesis =>
      rw [equal]
      apply equalElements_self
      intro element member
      apply inductionHypothesis element member (distinct.element member)
      exact noNaN.of_parts fun _ inside => mem_parts_array.mpr (.inr ⟨element, member, inside⟩)
  | object typeName fields inductionHypothesis =>
      refine equal_object.mpr ⟨rfl, rfl, fun entry member => ⟨entry.2, ?_, ?_⟩⟩
      · exact FieldMap.get?_of_mem distinct.keys member
      · apply inductionHypothesis entry member (distinct.content member)
        exact noNaN.of_parts fun _ inside => mem_parts_object.mpr (.inr ⟨entry, member, inside⟩)

theorem equalElements_symm {elements others : List Value}
    (turns : ∀ element ∈ elements, ∀ other ∈ others,
      element.equal other = true → other.equal element = true)
    (same : equalElements elements others = true) :
    equalElements others elements = true := by
  induction elements generalizing others with
  | nil =>
      cases others with
      | nil => rfl
      | cons other rest => simp at same
  | cons element rest inductionHypothesis =>
      cases others with
      | nil => simp at same
      | cons other otherRest =>
          simp only [equalElements, Bool.and_eq_true] at same ⊢
          refine ⟨turns element List.mem_cons_self other List.mem_cons_self same.1, ?_⟩
          apply inductionHypothesis _ same.2
          intro later member otherLater otherMember
          exact turns later (List.mem_cons_of_mem _ member) otherLater
            (List.mem_cons_of_mem _ otherMember)

/-- As many distinct names that all occur among others are all of them. -/
theorem perm_keys {fields others : List (String × Value)}
    (distinct : (FieldMap.keys fields).Nodup)
    (count : fields.length = others.length)
    (found : ∀ entry ∈ fields, ∃ content, FieldMap.get? others entry.1 = some content ∧
      entry.2.equal content = true) :
    (FieldMap.keys fields).Perm (FieldMap.keys others) := by
  have inside : FieldMap.keys fields ⊆ FieldMap.keys others := by
    intro name member
    obtain ⟨entry, entryMember, rfl⟩ := List.mem_map.mp member
    obtain ⟨content, lookup, -⟩ := found entry entryMember
    exact List.mem_map.mpr ⟨_, FieldMap.mem_of_get? lookup, rfl⟩
  apply (distinct.subperm inside).perm_of_length_le
  simp [FieldMap.keys, count]

/-- What is compared field by field from one side can be compared from the other side. -/
theorem exists_of_mem_others {fields others : List (String × Value)}
    (distinct : (FieldMap.keys fields).Nodup)
    (otherDistinct : (FieldMap.keys others).Nodup)
    (count : fields.length = others.length)
    (found : ∀ entry ∈ fields, ∃ content, FieldMap.get? others entry.1 = some content ∧
      entry.2.equal content = true)
    {other : String × Value}
    (member : other ∈ others) :
    ∃ content, FieldMap.get? fields other.1 = some content ∧ (other.1, content) ∈ fields ∧
      content.equal other.2 = true := by
  have otherName : other.1 ∈ FieldMap.keys fields :=
    (perm_keys distinct count found).mem_iff.mpr (List.mem_map.mpr ⟨other, member, rfl⟩)
  obtain ⟨⟨name, content⟩, inside, rfl⟩ := List.mem_map.mp otherName
  obtain ⟨partner, lookup, same⟩ := found _ inside
  obtain rfl : other.2 = partner :=
    Option.some.inj ((FieldMap.get?_of_mem otherDistinct member).symm.trans lookup)
  exact ⟨content, FieldMap.get?_of_mem distinct inside, inside, same⟩

theorem equal_symm {first second : Value}
    (firstDistinct : first.HasDistinctNames)
    (secondDistinct : second.HasDistinctNames)
    (same : first.equal second = true) :
    second.equal first = true := by
  induction first using inductionOn generalizing second with
  | leaf first leaf =>
      rcases leaf_cases leaf same with rfl | ⟨left, right, rfl, rfl, alike⟩ |
        ⟨left, right, rfl, rfl, alike⟩
      · exact same
      · exact FloatFormat.equal_symm alike
      · exact FloatFormat.equal_symm alike
  | array elements inductionHypothesis =>
      obtain ⟨others, rfl, same⟩ := eq_array_of_equal same
      rw [equal]
      apply equalElements_symm _ same
      intro element member other otherMember
      exact inductionHypothesis element member (firstDistinct.element member)
        (secondDistinct.element otherMember)
  | object typeName fields inductionHypothesis =>
      obtain ⟨others, rfl⟩ := eq_object_of_equal same
      obtain ⟨-, count, found⟩ := equal_object.mp same
      refine equal_object.mpr ⟨rfl, count.symm, fun other member => ?_⟩
      obtain ⟨content, lookup, inside, alike⟩ :=
        exists_of_mem_others firstDistinct.keys secondDistinct.keys count found member
      exact ⟨content, lookup, inductionHypothesis _ inside (firstDistinct.content inside)
        (secondDistinct.content member) alike⟩

theorem equalElements_trans {elements others lasts : List Value}
    (chains : ∀ element ∈ elements, ∀ other last,
      element.equal other = true → other.equal last = true → element.equal last = true)
    (front : equalElements elements others = true)
    (back : equalElements others lasts = true) :
    equalElements elements lasts = true := by
  induction elements generalizing others lasts with
  | nil =>
      cases others with
      | nil => exact back
      | cons other rest => simp at front
  | cons element rest inductionHypothesis =>
      cases others with
      | nil => simp at front
      | cons other otherRest =>
          cases lasts with
          | nil => simp at back
          | cons last lastRest =>
              rw [List.forall_mem_cons] at chains
              simp only [equalElements, Bool.and_eq_true] at front back ⊢
              exact ⟨chains.1 other last front.1 back.1,
                inductionHypothesis chains.2 front.2 back.2⟩

theorem equal_trans {first second third : Value}
    (front : first.equal second = true)
    (back : second.equal third = true) :
    first.equal third = true := by
  induction first using inductionOn generalizing second third with
  | leaf first leaf =>
      rcases leaf_cases leaf front with rfl | ⟨left, right, rfl, rfl, alike⟩ |
        ⟨left, right, rfl, rfl, alike⟩
      · exact back
      · cases third with
        | float last => exact FloatFormat.equal_trans alike back
        | _ => simp at back
      · cases third with
        | double last => exact FloatFormat.equal_trans alike back
        | _ => simp at back
  | array elements inductionHypothesis =>
      obtain ⟨others, rfl, front⟩ := eq_array_of_equal front
      obtain ⟨lasts, rfl, back⟩ := eq_array_of_equal back
      rw [equal]
      exact equalElements_trans
        (fun element member _ _ => inductionHypothesis element member) front back
  | object typeName fields inductionHypothesis =>
      obtain ⟨others, rfl⟩ := eq_object_of_equal front
      obtain ⟨lasts, rfl⟩ := eq_object_of_equal back
      obtain ⟨-, count, found⟩ := equal_object.mp front
      obtain ⟨-, otherCount, otherFound⟩ := equal_object.mp back
      refine equal_object.mpr ⟨rfl, count.trans otherCount, fun entry member => ?_⟩
      obtain ⟨content, lookup, same⟩ := found entry member
      obtain ⟨last, lastLookup, otherSame⟩ := otherFound _ (FieldMap.mem_of_get? lookup)
      exact ⟨last, lastLookup, inductionHypothesis entry member same otherSame⟩

/-! ### The order of fields -/

/-- Two entries have one name and equal values. -/
def EqualEntries (first second : String × Value) : Prop :=
  first.1 = second.1 ∧ first.2.equal second.2 = true

theorem exists_of_forall₂_equalEntries {fields others : List (String × Value)}
    (matched : List.Forall₂ EqualEntries fields others)
    {entry : String × Value}
    (member : entry ∈ fields) :
    ∃ other ∈ others, EqualEntries entry other := by
  induction matched with
  | nil => cases member
  | cons alike _ inductionHypothesis =>
      rcases List.mem_cons.mp member with rfl | later
      · exact ⟨_, List.mem_cons_self, alike⟩
      · obtain ⟨other, otherMember, otherAlike⟩ := inductionHypothesis later
        exact ⟨other, List.mem_cons_of_mem _ otherMember, otherAlike⟩

/-- Fields are equal to others by name if they can be put in an order in which they are equal one
by one. -/
theorem equal_object_perm
    {typeName otherName : String}
    {fields others : List (String × Value)}
    (distinct : (FieldMap.keys fields).Nodup)
    (otherDistinct : (FieldMap.keys others).Nodup) :
    (object typeName fields).equal (.object otherName others) = true ↔
      typeName = otherName ∧ ∃ ordered, fields.Perm ordered ∧
        List.Forall₂ EqualEntries ordered others := by
  rw [equal_object]
  apply and_congr_right
  intro _
  constructor
  · -- The fields are listed by the names of the others.
    rintro ⟨count, found⟩
    let entryOf (name : String) : String × Value :=
      (name, ((FieldMap.get? fields name).getD default))
    have listed : (FieldMap.keys fields).map entryOf = fields := by
      rw [FieldMap.keys, List.map_map]
      conv_rhs => rw [← List.map_id fields]
      apply List.map_congr_left
      intro entry member
      simp [entryOf, FieldMap.get?_of_mem distinct member]
    refine ⟨(FieldMap.keys others).map entryOf, ?_, ?_⟩
    · conv_lhs => rw [← listed]
      exact (perm_keys distinct count found).map entryOf
    · rw [FieldMap.keys, List.map_map, List.forall₂_map_left_iff, List.forall₂_same]
      intro other member
      obtain ⟨content, lookup, -, alike⟩ :=
        exists_of_mem_others distinct otherDistinct count found member
      refine ⟨rfl, ?_⟩
      simpa [entryOf, lookup] using alike
  · rintro ⟨ordered, permuted, matched⟩
    refine ⟨permuted.length_eq.trans matched.length_eq, fun entry member => ?_⟩
    obtain ⟨⟨name, content⟩, otherMember, sameName, alike⟩ :=
      exists_of_forall₂_equalEntries matched (permuted.mem_iff.mp member)
    refine ⟨content, ?_, alike⟩
    rw [sameName]
    exact FieldMap.get?_of_mem otherDistinct otherMember

/-! ### Built values -/

/-- Every object anywhere in a value holds a field map that operations built. -/
def IsBuilt (value : Value) : Prop :=
  ∀ typeName fields, .object typeName fields ∈ value.parts →
    ∃ operations, fields = FieldMap.run operations

theorem IsBuilt.hasDistinctNames {value : Value} (built : value.IsBuilt) :
    value.HasDistinctNames := by
  intro typeName fields member
  obtain ⟨operations, rfl⟩ := built typeName fields member
  exact (FieldMap.tracks_run operations).distinct

/-- Equality is an equivalence on the values that are built without NaN, and two objects are equal
if and only if they have one type and the fields of one, in some order, are equal to those of the
other one by one. -/
theorem equal_isEquivalence :
    Equivalence (fun first second : {value : Value // value.IsBuilt ∧ value.HasNoNaN} =>
        first.val.equal second.val = true) ∧
      ∀ typeName otherName fields others,
        (object typeName fields).IsBuilt → (object otherName others).IsBuilt →
          ((object typeName fields).equal (.object otherName others) = true ↔
            typeName = otherName ∧ ∃ ordered, fields.Perm ordered ∧
              List.Forall₂ EqualEntries ordered others) := by
  constructor
  · exact {
      refl := fun value => equal_self value.property.1.hasDistinctNames value.property.2
      symm := fun {first second} same =>
        equal_symm first.property.1.hasDistinctNames second.property.1.hasDistinctNames same
      trans := equal_trans }
  · intro typeName otherName fields others built otherBuilt
    exact equal_object_perm built.hasDistinctNames.keys otherBuilt.hasDistinctNames.keys

/-- Two objects with the fields in another order and with another zero in one of them. Neither holds a
NaN, so that they are equal the other way round too. -/
theorem equal_isEquivalence_zeros :
    let fields : List (String × Value) := [("x", .float 0), ("y", .int32 1)]
    let others : List (String × Value) := [("y", .int32 1), ("x", .float 0x80000000)]
    ((object "Point" fields).IsBuilt ∧ (object "Point" fields).HasNoNaN) ∧
      ((object "Point" others).IsBuilt ∧ (object "Point" others).HasNoNaN) ∧
      (object "Point" fields).equal (.object "Point" others) = true ∧
      (object "Point" others).equal (.object "Point" fields) = true ∧
      ∃ ordered, fields.Perm ordered ∧ List.Forall₂ EqualEntries ordered others := by
  intro fields others
  have built : (object "Point" fields).IsBuilt := by
    intro typeName inner member
    simp [fields, parts, partsOfFields] at member
    exact ⟨[.collect fields], member.2⟩
  have otherBuilt : (object "Point" others).IsBuilt := by
    intro typeName inner member
    simp [others, parts, partsOfFields] at member
    exact ⟨[.collect others], member.2⟩
  have numbers : (object "Point" fields).HasNoNaN := by
    constructor
    · intro bits member
      obtain rfl : bits = 0 := by simpa [fields, parts, partsOfFields] using member
      decide
    · intro bits member
      simp [fields, parts, partsOfFields] at member
  have otherNumbers : (object "Point" others).HasNoNaN := by
    constructor
    · intro bits member
      obtain rfl : bits = 0x80000000 := by simpa [others, parts, partsOfFields] using member
      decide
    · intro bits member
      simp [others, parts, partsOfFields] at member
  have same : (object "Point" fields).equal (.object "Point" others) = true := by decide
  obtain ⟨equivalence, permutes⟩ := equal_isEquivalence
  have back := @equivalence.symm ⟨_, built, numbers⟩ ⟨_, otherBuilt, otherNumbers⟩ same
  have permuted := (permutes _ _ _ _ built otherBuilt).mp same
  exact ⟨⟨built, numbers⟩, ⟨otherBuilt, otherNumbers⟩, same, back, permuted.2⟩

end Value

end ProtoWire
