import ProtoWire.Value.Basic

/-!
Contract: field maps that are filled from the first to the last entry. New names go to the end,
and the values of a name that was added last are changed in place.

Owns:
- setting and extending entries under new names and under the last name;
- the order in which entries are set, where it does not matter;
- removing an entry after another one, or the same one, was set;
- the entries that a look-up finds.

Does not own: the names that a message allows.
-/

namespace ProtoWire

namespace FieldMap

variable {α : Type}

theorem get?_eq_none {fields : FieldMap α} {name : String} :
    get? fields name = none ↔ name ∉ keys fields := by
  induction fields with
  | nil => simp [keys]
  | cons entry others inductionHypothesis =>
      obtain ⟨key, content⟩ := entry
      rw [get?, keys, List.map_cons, List.mem_cons, not_or]
      by_cases same : key = name
      · simp [same]
      · rw [if_neg same, inductionHypothesis]
        exact ⟨fun absent => ⟨fun equal => same equal.symm, absent⟩, fun absent => absent.2⟩

theorem mem_of_get? {fields : FieldMap α} {name : String} {content : α}
    (found : get? fields name = some content) :
    (name, content) ∈ fields := by
  induction fields with
  | nil => cases found
  | cons entry others inductionHypothesis =>
      obtain ⟨key, first⟩ := entry
      rw [get?] at found
      split at found
      · rename_i same
        subst same
        obtain rfl := Option.some.inj found
        exact List.mem_cons_self
      · exact List.mem_cons_of_mem _ (inductionHypothesis found)

theorem mem_insert {fields : FieldMap α} {name : String} {content : α} {entry : String × α}
    (member : entry ∈ insert fields name content) :
    entry = (name, content) ∨ entry ∈ fields := by
  induction fields with
  | nil => exact .inl (List.mem_singleton.mp member)
  | cons first others inductionHypothesis =>
      obtain ⟨key, old⟩ := first
      rw [insert] at member
      split at member
      · rename_i same
        subst same
        rcases List.mem_cons.mp member with rfl | later
        · exact .inl rfl
        · exact .inr (List.mem_cons_of_mem _ later)
      · rcases List.mem_cons.mp member with rfl | later
        · exact .inr List.mem_cons_self
        · exact (inductionHypothesis later).imp_right (List.mem_cons_of_mem _)

theorem nodup_keys_insert {fields : FieldMap α}
    (distinct : (keys fields).Nodup)
    (name : String)
    (content : α) :
    (keys (insert fields name content)).Nodup := by
  rw [keys_insert]
  split
  · exact distinct
  · rename_i fresh
    rw [List.nodup_append]
    refine ⟨distinct, List.pairwise_singleton (· ≠ ·) name, ?_⟩
    intro present inside other same equal
    obtain rfl := List.mem_singleton.mp same
    exact fresh (equal ▸ inside)

/-- Under distinct names, every entry is found by its name. -/
theorem get?_of_mem {fields : FieldMap α} {name : String} {content : α}
    (distinct : (keys fields).Nodup)
    (member : (name, content) ∈ fields) :
    get? fields name = some content := by
  induction fields with
  | nil => cases member
  | cons entry others inductionHypothesis =>
      obtain ⟨key, first⟩ := entry
      rw [keys, List.map_cons, List.nodup_cons] at distinct
      rw [get?]
      rcases List.mem_cons.mp member with same | later
      · cases same
        rw [if_pos rfl]
      · have different : key ≠ name := by
          rintro rfl
          exact distinct.1 (List.mem_map.mpr ⟨(key, content), later, rfl⟩)
        rw [if_neg different, inductionHypothesis distinct.2 later]

/-- Under distinct names, the order of the entries does not matter to look-ups. -/
theorem get?_perm {fields others : FieldMap α}
    (distinct : (keys fields).Nodup)
    (perm : fields.Perm others)
    (name : String) :
    get? fields name = get? others name := by
  have otherKeys : (keys others).Nodup := (perm.map Prod.fst).nodup_iff.mp distinct
  cases found : get? others name with
  | none =>
      rw [get?_eq_none] at found ⊢
      exact fun member => found ((perm.map Prod.fst).mem_iff.mp member)
  | some content => exact get?_of_mem distinct (perm.mem_iff.mpr (mem_of_get? found))

/-- The entries in front are found first. -/
theorem get?_append (front back : FieldMap α) (name : String) :
    get? (front ++ back) name = (get? front name).or (get? back name) := by
  induction front with
  | nil => rfl
  | cons entry others inductionHypothesis =>
      obtain ⟨key, content⟩ := entry
      rw [List.cons_append, get?, get?, inductionHypothesis]
      split <;> rfl

theorem insert_of_not_mem {fields : FieldMap α} {name : String} {content : α}
    (fresh : name ∉ keys fields) :
    insert fields name content = fields ++ [(name, content)] := by
  induction fields with
  | nil => rfl
  | cons entry others inductionHypothesis =>
      obtain ⟨key, first⟩ := entry
      rw [keys, List.map_cons, List.mem_cons, not_or] at fresh
      have different : key ≠ name := fun equal => fresh.1 equal.symm
      rw [insert, if_neg different, inductionHypothesis fresh.2]
      rfl

/-- The last entry is set in place. -/
theorem insert_last {fields : FieldMap α} {name : String} {old content : α}
    (fresh : name ∉ keys fields) :
    insert (fields ++ [(name, old)]) name content = fields ++ [(name, content)] := by
  induction fields with
  | nil =>
      rw [List.nil_append, insert, if_pos rfl]
      rfl
  | cons entry others inductionHypothesis =>
      obtain ⟨key, first⟩ := entry
      rw [keys, List.map_cons, List.mem_cons, not_or] at fresh
      have different : key ≠ name := fun equal => fresh.1 equal.symm
      rw [List.cons_append, insert, if_neg different, inductionHypothesis fresh.2]
      rfl

/-- The second of two values under a name is the one that stays. -/
theorem insert_insert (fields : FieldMap α) (name : String) (first second : α) :
    insert (insert fields name first) name second = insert fields name second := by
  induction fields with
  | nil => simp only [insert, if_pos]
  | cons entry others inductionHypothesis =>
      obtain ⟨key, old⟩ := entry
      by_cases same : key = name
      · simp only [insert, if_pos same]
      · simp only [insert, if_neg same, inductionHypothesis]

/-- An entry that is present can be set before or after another one. -/
theorem insert_comm {fields : FieldMap α} {name other : String}
    (present : name ∈ keys fields)
    (different : other ≠ name)
    (content otherContent : α) :
    insert (insert fields other otherContent) name content =
      insert (insert fields name content) other otherContent := by
  induction fields with
  | nil => cases present
  | cons entry others inductionHypothesis =>
      obtain ⟨key, old⟩ := entry
      by_cases same : key = name
      · subst same
        simp only [insert, if_pos, if_neg different.symm]
      · by_cases found : key = other
        · subst found
          simp only [insert, if_pos, if_neg same]
        · rw [keys, List.map_cons, List.mem_cons] at present
          have later := present.resolve_left fun equal => same equal.symm
          simp only [insert, if_neg same, if_neg found, inductionHypothesis later]

/-- What is set is removed with the entry. -/
theorem erase_insert_self (fields : FieldMap α) (name : String) (content : α) :
    erase (insert fields name content) name = erase fields name := by
  induction fields with
  | nil => simp only [insert, erase, if_pos]
  | cons entry others inductionHypothesis =>
      obtain ⟨key, old⟩ := entry
      by_cases same : key = name
      · simp only [insert, erase, if_pos same]
      · simp only [insert, erase, if_neg same, inductionHypothesis]

/-- An entry can be removed before or after another one is set. -/
theorem erase_insert_of_ne {name other : String}
    (different : other ≠ name)
    (fields : FieldMap α)
    (content : α) :
    erase (insert fields other content) name = insert (erase fields name) other content := by
  induction fields with
  | nil => simp only [insert, erase, if_neg different]
  | cons entry others inductionHypothesis =>
      obtain ⟨key, old⟩ := entry
      by_cases same : key = name
      · subst same
        simp only [insert, erase, if_pos, if_neg different.symm]
      · by_cases found : key = other
        · subst found
          simp only [insert, erase, if_pos, if_neg same]
        · simp only [insert, erase, if_neg same, if_neg found, inductionHypothesis]

theorem get?_erase_of_ne {name other : String}
    (different : other ≠ name)
    (fields : FieldMap α) :
    get? (erase fields name) other = get? fields other := by
  induction fields with
  | nil => rfl
  | cons entry others inductionHypothesis =>
      obtain ⟨key, old⟩ := entry
      by_cases same : key = name
      · subst same
        simp only [erase, get?, if_pos, if_neg different.symm]
      · simp only [erase, get?, if_neg same, inductionHypothesis]

theorem get?_last {fields : FieldMap α} {name : String} {content : α}
    (fresh : name ∉ keys fields) :
    get? (fields ++ [(name, content)]) name = some content := by
  rw [← insert_of_not_mem fresh, get?_insert, if_pos rfl]

theorem elements_insert (fields : FieldMap Value) (name other : String) (content : Value) :
    elements (insert fields name content) other =
      if name = other then content.asArray else elements fields other := by
  rw [elements, get?_insert]
  split <;> rfl

theorem extend_of_not_mem {fields : FieldMap Value} {name : String} {added : List Value}
    (fresh : name ∉ keys fields) :
    extend fields name added = fields ++ [(name, .array added)] := by
  have absent : get? fields name = none := get?_eq_none.mpr fresh
  rw [extend, elements, absent, insert_of_not_mem fresh]
  rfl

/-- The last array is extended in place. -/
theorem extend_last {fields : FieldMap Value} {name : String} {before added : List Value}
    (fresh : name ∉ keys fields) :
    extend (fields ++ [(name, .array before)]) name added =
      fields ++ [(name, .array (before ++ added))] := by
  rw [extend, elements, get?_last fresh, insert_last fresh]
  rfl

end FieldMap

end ProtoWire
