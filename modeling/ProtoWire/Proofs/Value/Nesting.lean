import ProtoWire.Proofs.Value.Parts

/-!
Contract: how many objects lie inside of each other in a value. Arrays do not count.

Owns:
- the nesting of a value;
- bounds on the nesting of the parts of a value.

Does not own: the nesting that a reader follows.
-/

namespace ProtoWire.Value

mutual

/-- The most objects on a way from the value to one of its leaves. -/
def nesting : Value → Nat
  | .array elements => nestingOfElements elements
  | .object _ fields => 1 + nestingOfFields fields
  | _ => 0

def nestingOfElements : List Value → Nat
  | [] => 0
  | element :: others => max element.nesting (nestingOfElements others)

def nestingOfFields : List (String × Value) → Nat
  | [] => 0
  | (_, content) :: others => max content.nesting (nestingOfFields others)

end

theorem IsLeaf.nesting_eq {value : Value} (leaf : value.IsLeaf) : value.nesting = 0 := by
  cases value with
  | array elements => exact absurd rfl (leaf.noArray elements)
  | object typeName fields => exact absurd rfl (leaf.noObject typeName fields)
  | _ => simp [nesting]

theorem nesting_le_of_mem_elements {elements : List Value} {element : Value}
    (member : element ∈ elements) :
    element.nesting ≤ nestingOfElements elements := by
  induction elements with
  | nil => cases member
  | cons first others inductionHypothesis =>
      rw [nestingOfElements]
      rcases List.mem_cons.mp member with rfl | later
      · exact Nat.le_max_left ..
      · exact Nat.le_trans (inductionHypothesis later) (Nat.le_max_right ..)

theorem nesting_le_of_mem_fields {fields : List (String × Value)} {name : String} {content : Value}
    (member : (name, content) ∈ fields) :
    content.nesting ≤ nestingOfFields fields := by
  induction fields with
  | nil => cases member
  | cons entry others inductionHypothesis =>
      obtain ⟨key, first⟩ := entry
      rw [nestingOfFields]
      rcases List.mem_cons.mp member with same | later
      · cases same
        exact Nat.le_max_left ..
      · exact Nat.le_trans (inductionHypothesis later) (Nat.le_max_right ..)

theorem nestingOfElements_le {elements : List Value} {bound : Nat}
    (each : ∀ element ∈ elements, element.nesting ≤ bound) :
    nestingOfElements elements ≤ bound := by
  induction elements with
  | nil =>
      rw [nestingOfElements]
      exact Nat.zero_le bound
  | cons first others inductionHypothesis =>
      rw [nestingOfElements]
      exact Nat.max_le.mpr ⟨each first List.mem_cons_self,
        inductionHypothesis fun other member => each other (List.mem_cons_of_mem first member)⟩

theorem nestingOfFields_le {fields : List (String × Value)} {bound : Nat}
    (each : ∀ entry ∈ fields, entry.2.nesting ≤ bound) :
    nestingOfFields fields ≤ bound := by
  induction fields with
  | nil =>
      rw [nestingOfFields]
      exact Nat.zero_le bound
  | cons first others inductionHypothesis =>
      rw [nestingOfFields]
      exact Nat.max_le.mpr ⟨each first List.mem_cons_self,
        inductionHypothesis fun other member => each other (List.mem_cons_of_mem first member)⟩

/-- Elements nest deeper than a bound only if one of them does. -/
theorem exists_of_lt_nestingOfElements {elements : List Value} {bound : Nat}
    (deep : bound < nestingOfElements elements) :
    ∃ element ∈ elements, bound < element.nesting := by
  apply Classical.byContradiction
  intro none
  apply Nat.not_le.mpr deep
  apply nestingOfElements_le
  intro element member
  exact Nat.le_of_not_lt fun deeper => none ⟨element, member, deeper⟩

theorem exists_of_lt_nestingOfFields {fields : List (String × Value)} {bound : Nat}
    (deep : bound < nestingOfFields fields) :
    ∃ entry ∈ fields, bound < entry.2.nesting := by
  apply Classical.byContradiction
  intro none
  apply Nat.not_le.mpr deep
  apply nestingOfFields_le
  intro entry member
  exact Nat.le_of_not_lt fun deeper => none ⟨entry, member, deeper⟩

end ProtoWire.Value
