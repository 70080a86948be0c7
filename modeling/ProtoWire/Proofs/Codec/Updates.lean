import ProtoWire.Codec.Decode
import ProtoWire.Proofs.FieldMap

/-!
Contract: what a run of records does to one field of a message. The records of the field alone
decide what it holds, and the other records alone decide the other fields.

Owns:
- the field that a record sets or extends;
- the value of one field, and the other fields, after a run of records;
- records that extend one field again and again.

Does not own: which records a message has.
-/

namespace ProtoWire

namespace Update

/-- Whether a record sets or extends a field. -/
def touches (name : String) : Update → Bool
  | .skip => false
  | .set other _ => other == name
  | .extend other _ => other == name

variable {name : String}

/-- A record of a field changes it with a view to the elements that it has. -/
theorem exists_change_of_touches
    {update : Update}
    (touched : update.touches name = true) :
    ∃ change : List Value → Value, ∀ fields : FieldMap Value,
      update.apply fields =
        FieldMap.insert fields name (change (FieldMap.elements fields name)) := by
  cases update with
  | skip => cases touched
  | set other content =>
      obtain rfl : other = name := eq_of_beq touched
      exact ⟨fun _ => content, fun _ => rfl⟩
  | extend other added =>
      obtain rfl : other = name := eq_of_beq touched
      exact ⟨fun elements => .array (elements ++ added), fun _ => rfl⟩

/-- Every other record changes nothing or another field. -/
theorem exists_change_of_not_touches
    {update : Update}
    (leaves : update.touches name = false) :
    (∀ fields, update.apply fields = fields) ∨
      ∃ other, other ≠ name ∧ ∃ change : List Value → Value, ∀ fields : FieldMap Value,
        update.apply fields =
          FieldMap.insert fields other (change (FieldMap.elements fields other)) := by
  cases update with
  | skip => exact .inl fun _ => rfl
  | set other content => exact .inr ⟨other, ne_of_beq_false leaves, fun _ => content, fun _ => rfl⟩
  | extend other added =>
      exact .inr ⟨other, ne_of_beq_false leaves, fun elements => .array (elements ++ added),
        fun _ => rfl⟩

theorem get?_apply_of_not_touches
    {update : Update}
    (leaves : update.touches name = false)
    (fields : FieldMap Value) :
    FieldMap.get? (update.apply fields) name = FieldMap.get? fields name := by
  rcases exists_change_of_not_touches leaves with same | ⟨other, different, change, applied⟩
  · rw [same]
  · rw [applied, FieldMap.get?_insert, if_neg different]

/-- What a record makes of a field depends on this field only. -/
theorem get?_apply_congr
    (update : Update)
    {fields others : FieldMap Value}
    (same : FieldMap.get? fields name = FieldMap.get? others name) :
    FieldMap.get? (update.apply fields) name = FieldMap.get? (update.apply others) name := by
  cases touched : update.touches name with
  | false => rw [get?_apply_of_not_touches touched, get?_apply_of_not_touches touched, same]
  | true =>
      obtain ⟨change, applied⟩ := exists_change_of_touches touched
      rw [applied, applied, FieldMap.get?_insert, FieldMap.get?_insert, if_pos rfl, if_pos rfl,
        FieldMap.elements, FieldMap.elements, same]

/-- A record never removes a field, and adds the one that it is about. -/
theorem get?_apply_eq_none
    {update : Update}
    {fields : FieldMap Value}
    (absent : FieldMap.get? (update.apply fields) name = none) :
    FieldMap.get? fields name = none ∧ update.touches name = false := by
  cases touched : update.touches name with
  | false =>
      rw [get?_apply_of_not_touches touched] at absent
      exact ⟨absent, rfl⟩
  | true =>
      obtain ⟨change, applied⟩ := exists_change_of_touches touched
      rw [applied, FieldMap.get?_insert, if_pos rfl] at absent
      cases absent

theorem erase_apply_of_touches
    {update : Update}
    (touched : update.touches name = true)
    (fields : FieldMap Value) :
    FieldMap.erase (update.apply fields) name = FieldMap.erase fields name := by
  obtain ⟨change, applied⟩ := exists_change_of_touches touched
  rw [applied, FieldMap.erase_insert_self]

theorem erase_apply_of_not_touches
    {update : Update}
    (leaves : update.touches name = false)
    (fields : FieldMap Value) :
    FieldMap.erase (update.apply fields) name = update.apply (FieldMap.erase fields name) := by
  rcases exists_change_of_not_touches leaves with same | ⟨other, different, change, applied⟩
  · rw [same, same]
  · rw [applied, applied, FieldMap.erase_insert_of_ne different, FieldMap.elements,
      FieldMap.elements, FieldMap.get?_erase_of_ne different]

/-! ### Runs of records -/

/-- The records of a field decide what it holds. -/
theorem get?_foldl (updates : List Update) :
    ∀ {fields others : FieldMap Value},
      FieldMap.get? fields name = FieldMap.get? others name →
        FieldMap.get? (updates.foldl apply fields) name =
          FieldMap.get? ((updates.filter (touches name)).foldl apply others) name := by
  induction updates with
  | nil => exact fun same => same
  | cons update later inductionHypothesis =>
      intro fields others same
      cases touched : update.touches name with
      | true =>
          rw [List.filter_cons_of_pos touched]
          exact inductionHypothesis (update.get?_apply_congr same)
      | false =>
          rw [List.filter_cons_of_neg (Bool.eq_false_iff.mp touched)]
          exact inductionHypothesis ((get?_apply_of_not_touches touched fields).trans same)

/-- The other records decide the other fields. -/
theorem erase_foldl (updates : List Update) (fields : FieldMap Value) :
    FieldMap.erase (updates.foldl apply fields) name =
      (updates.filter fun update => !update.touches name).foldl apply
        (FieldMap.erase fields name) := by
  induction updates generalizing fields with
  | nil => rfl
  | cons update later inductionHypothesis =>
      cases touched : update.touches name with
      | true =>
          have dropped : (update :: later).filter (fun update => !update.touches name) =
              later.filter fun update => !update.touches name :=
            List.filter_cons_of_neg (by simp [touched])
          rw [dropped, List.foldl_cons, inductionHypothesis, erase_apply_of_touches touched]
      | false =>
          have kept : (update :: later).filter (fun update => !update.touches name) =
              update :: later.filter fun update => !update.touches name :=
            List.filter_cons_of_pos (by simp [touched])
          rw [kept, List.foldl_cons, List.foldl_cons, inductionHypothesis,
            erase_apply_of_not_touches touched]

/-- No record is about a field that is absent at the end. -/
theorem touches_eq_false_of_foldl
    {updates : List Update}
    {fields : FieldMap Value}
    (absent : FieldMap.get? (updates.foldl apply fields) name = none) :
    ∀ update ∈ updates, update.touches name = false := by
  suffices both : FieldMap.get? fields name = none ∧
      ∀ update ∈ updates, update.touches name = false from both.2
  induction updates generalizing fields with
  | nil => exact ⟨absent, fun _ member => nomatch member⟩
  | cons update later inductionHypothesis =>
      obtain ⟨before, others⟩ := inductionHypothesis absent
      obtain ⟨empty, leaves⟩ := get?_apply_eq_none before
      exact ⟨empty, List.forall_mem_cons.mpr ⟨leaves, others⟩⟩

theorem filter_touches_of_leaves
    {updates : List Update}
    (leaves : ∀ update ∈ updates, update.touches name = false) :
    updates.filter (touches name) = [] := by
  rw [List.filter_eq_nil_iff]
  intro update member
  simp [leaves update member]

theorem filter_not_touches_of_leaves
    {updates : List Update}
    (leaves : ∀ update ∈ updates, update.touches name = false) :
    (updates.filter fun update => !update.touches name) = updates := by
  rw [List.filter_eq_self]
  intro update member
  simp [leaves update member]

/-- Records that extend a field, however few elements each of them has, leave one array with all
elements in order. -/
theorem get?_foldl_extend (groups : List (List Value)) (fields : FieldMap Value) :
    FieldMap.get? ((groups.map (extend name)).foldl apply fields) name =
      if groups.isEmpty then FieldMap.get? fields name
      else some (.array (FieldMap.elements fields name ++ groups.flatten)) := by
  induction groups generalizing fields with
  | nil => rfl
  | cons group others inductionHypothesis =>
      have first : FieldMap.elements ((extend name group).apply fields) name =
          FieldMap.elements fields name ++ group := by
        show FieldMap.elements (FieldMap.insert fields name _) name = _
        rw [FieldMap.elements_insert, if_pos rfl]
        rfl
      have found : FieldMap.get? ((extend name group).apply fields) name =
          some (.array (FieldMap.elements fields name ++ group)) := by
        show FieldMap.get? (FieldMap.insert fields name _) name = _
        rw [FieldMap.get?_insert, if_pos rfl]
      rw [List.map_cons, List.foldl_cons, inductionHypothesis, first, found]
      cases others with
      | nil =>
          show some (Value.array _) = some (Value.array (_ ++ (group ++ [])))
          rw [List.append_nil]
      | cons next later =>
          show some (Value.array _) = some (Value.array (_ ++ (group ++ _)))
          rw [List.append_assoc]

end Update

end ProtoWire
