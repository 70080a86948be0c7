import Mathlib.Data.List.Nodup
import ProtoWire.Proofs.FieldMap

/-!
Contract: field maps that any sequence of operations builds. A field map is determined by its
history: which value stands under a name, and where the name stands among the others.

Owns:
- the edits of a map, the operations on it, and the history that they leave;
- the value that a history stores under a name, and the moment since which the name is present;
- the invariant that ties a map to its history.

Does not own: equality of maps.
-/

namespace ProtoWire

namespace FieldMap

/-! ### Operations -/

/-- A change of a map under one name. -/
inductive Edit where
  | insert (name : String) (content : Value)
  | remove (name : String)
  /-- Elements are pushed to the array under a name. -/
  | extend (name : String) (added : List Value)
  /-- A new value is written over an entry, if there is one. -/
  | replace (name : String) (content : Value)

/-- A change of a map, or a new map in its place. -/
inductive Operation where
  | change (edit : Edit)
  /-- A map is built from entries. -/
  | collect (entries : List (String × Value))

namespace Edit

/-- The name that is edited. -/
def target : Edit → String
  | .insert name _ | .remove name | .extend name _ | .replace name _ => name

def apply (fields : FieldMap Value) : Edit → FieldMap Value
  | .insert name content => (fields.exchange name content).2
  | .remove name => (fields.extract name).2
  | .extend name added => FieldMap.extend fields name added
  | .replace name content => (fields.replace? name content).getD fields

/-- What stands under the edited name behind an edit. -/
def leaves (before : Option Value) : Edit → Option Value
  | .insert _ content => some content
  | .remove _ => none
  | .extend _ added =>
      match before with
      | some (.array elements) => some (.array (elements ++ added))
      | _ => some (.array added)
  | .replace _ content => before.map fun _ => content

end Edit

namespace Operation

def apply (fields : FieldMap Value) : Operation → FieldMap Value
  | .change edit => edit.apply fields
  | .collect entries => ofList entries

/-- The history behind an operation. A map that is built from entries has a history of its own. -/
def record (before : List Edit) : Operation → List Edit
  | .change edit => before ++ [edit]
  | .collect entries => entries.map fun entry => .insert entry.1 entry.2

end Operation

/-- The map that operations build from an empty one. -/
def run (operations : List Operation) : FieldMap Value :=
  operations.foldl Operation.apply []

/-- The edits since the last time that a map was built from entries, and those that built it. -/
def history (operations : List Operation) : List Edit :=
  operations.foldl Operation.record []

/-! ### Histories -/

/-- The value that a history stores under a name. Only the edits of this name have a part in it. -/
def stored (history : List Edit) (name : String) : Option Value :=
  (history.filter fun edit => edit.target = name).foldl Edit.leaves none

theorem stored_append (history : List Edit) (edit : Edit) (name : String) :
    stored (history ++ [edit]) name =
      if edit.target = name then edit.leaves (stored history name) else stored history name := by
  rw [stored, List.filter_append, List.foldl_append]
  by_cases same : edit.target = name <;> simp [same, stored]

/-- A name was added by the edit at a moment, and is present ever since. -/
structure IsLastAdded (history : List Edit) (name : String) (moment : Nat) : Prop where
  within : moment < history.length
  absent : stored (history.take moment) name = none
  present : ∀ later, moment < later → later ≤ history.length →
    stored (history.take later) name ≠ none

/-- A name was last added before another one. -/
def AddedBefore (history : List Edit) (first second : String) : Prop :=
  ∃ earlier later,
    IsLastAdded history first earlier ∧ IsLastAdded history second later ∧ earlier < later

namespace IsLastAdded

variable {history : List Edit} {edit : Edit} {name : String} {moment other : Nat}

theorem unique
    (added : IsLastAdded history name moment)
    (otherAdded : IsLastAdded history name other) :
    moment = other := by
  rcases Nat.lt_trichotomy moment other with earlier | same | later
  · exact absurd otherAdded.absent (added.present other earlier (Nat.le_of_lt otherAdded.within))
  · exact same
  · exact absurd added.absent (otherAdded.present moment later (Nat.le_of_lt added.within))

/-- The moment stays the same while the name is present. -/
theorem append
    (added : IsLastAdded history name moment)
    (present : stored (history ++ [edit]) name ≠ none) :
    IsLastAdded (history ++ [edit]) name moment where
  within := by simpa using Nat.lt_succ_of_lt added.within
  absent := by
    rw [List.take_append_of_le_length (Nat.le_of_lt added.within)]
    exact added.absent
  present later behind bound := by
    rcases Nat.lt_or_ge history.length later with outside | inside
    · rwa [List.take_of_length_le (by simpa using Nat.succ_le_of_lt outside)]
    · rw [List.take_append_of_le_length inside]
      exact added.present later behind inside

/-- A name that an edit adds is present since then. -/
theorem last
    (absent : stored history name = none)
    (present : stored (history ++ [edit]) name ≠ none) :
    IsLastAdded (history ++ [edit]) name history.length where
  within := by simp
  absent := by rwa [List.take_left']; rfl
  present later behind bound := by
    rwa [List.take_of_length_le (by simpa using Nat.succ_le_of_lt behind)]

end IsLastAdded

/-- Names that stay keep their order. -/
theorem AddedBefore.append
    {history : List Edit}
    {edit : Edit}
    {first second : String}
    (before : AddedBefore history first second)
    (firstPresent : stored (history ++ [edit]) first ≠ none)
    (secondPresent : stored (history ++ [edit]) second ≠ none) :
    AddedBefore (history ++ [edit]) first second := by
  obtain ⟨earlier, later, firstAdded, secondAdded, order⟩ := before
  exact ⟨earlier, later, firstAdded.append firstPresent, secondAdded.append secondPresent, order⟩

/-! ### One edit -/

section Edits

variable (fields : FieldMap Value)

theorem get?_replace (name other : String) (content : Value) :
    get? ((fields.replace? name content).getD fields) other =
      if name = other then (get? fields other).map fun _ => content else get? fields other := by
  unfold replace? contains
  by_cases same : name = other
  · subst same
    cases found : get? fields name <;> simp [found, get?_insert]
  · cases found : get? fields name <;> simp [get?_insert, same]

/-- An edit has an effect on its own name only. -/
theorem get?_apply (distinct : (keys fields).Nodup) (edit : Edit) (name : String) :
    get? (edit.apply fields) name =
      if edit.target = name then edit.leaves (get? fields name) else get? fields name := by
  cases edit with
  | insert key content => exact get?_insert fields key name content
  | replace key content => exact get?_replace fields key name content
  | remove key =>
      change get? (erase fields key) name = if key = name then none else get? fields name
      by_cases same : key = name
      · rw [if_pos same, same, get?_eq_none, keys_erase]
        exact distinct.not_mem_erase
      · rw [if_neg same, get?_erase_of_ne fun equal => same equal.symm]
  | extend key added =>
      change get? (FieldMap.extend fields key added) name = if key = name then _ else _
      rw [FieldMap.extend, get?_insert]
      by_cases same : key = name
      · subst same
        rw [if_pos rfl, if_pos rfl, elements]
        cases get? fields key with
        | none => rfl
        | some content => cases content <;> rfl
      · rw [if_neg same, if_neg same]

theorem keys_insert_of_mem {name : String} (present : name ∈ keys fields) (content : Value) :
    keys (insert fields name content) = keys fields := by
  rw [keys_insert, if_pos present]

/-- An edit either takes no new name in, or puts its own one behind all others. -/
theorem keys_apply (edit : Edit) :
    (keys (edit.apply fields)).Sublist (keys fields) ∨
      edit.target ∉ keys fields ∧ keys (edit.apply fields) = keys fields ++ [edit.target] := by
  have inserted (name : String) (content : Value) :
      (keys (insert fields name content)).Sublist (keys fields) ∨
        name ∉ keys fields ∧ keys (insert fields name content) = keys fields ++ [name] := by
    by_cases present : name ∈ keys fields
    · rw [keys_insert_of_mem fields present]
      exact .inl (List.Sublist.refl _)
    · rw [keys_insert, if_neg present]
      exact .inr ⟨present, rfl⟩
  cases edit with
  | insert name content => exact inserted name content
  | extend name added => exact inserted name _
  | remove name =>
      change (keys (erase fields name)).Sublist (keys fields) ∨ _
      rw [keys_erase]
      exact .inl List.erase_sublist
  | replace name content =>
      apply Or.inl
      change (keys ((replace? fields name content).getD fields)).Sublist (keys fields)
      unfold replace?
      split
      · rename_i present
        have member : name ∈ keys fields := by
          by_contra absent
          simp [contains, get?_eq_none.mpr absent] at present
        rw [Option.getD_some, keys_insert_of_mem fields member]
      · exact List.Sublist.refl _

end Edits

/-! ### The invariant -/

/-- A map holds what its history stores, in the order in which the names were last added. -/
structure Tracks (fields : FieldMap Value) (history : List Edit) : Prop where
  distinct : (keys fields).Nodup
  values : ∀ name, get? fields name = stored history name
  added : ∀ name ∈ keys fields, ∃! moment, IsLastAdded history name moment
  order : (keys fields).Pairwise (AddedBefore history)

namespace Tracks

variable {fields : FieldMap Value} {history : List Edit}

theorem mem_keys (tracks : fields.Tracks history) {name : String} :
    name ∈ keys fields ↔ stored history name ≠ none := by
  rw [← tracks.values name, ne_eq, get?_eq_none, not_not]

theorem nil : Tracks [] [] where
  distinct := List.nodup_nil
  values _ := rfl
  added _ member := absurd member List.not_mem_nil
  order := List.Pairwise.nil

/-- One edit keeps the invariant. -/
theorem edit (tracks : fields.Tracks history) (edit : Edit) :
    (edit.apply fields).Tracks (history ++ [edit]) := by
  have values (name : String) :
      get? (edit.apply fields) name = stored (history ++ [edit]) name := by
    rw [get?_apply fields tracks.distinct, stored_append, tracks.values name]
  have present {name : String} (member : name ∈ keys (edit.apply fields)) :
      stored (history ++ [edit]) name ≠ none := by
    rwa [← values name, ne_eq, get?_eq_none, not_not]
  have fresh {name : String}
      (member : name ∈ keys (edit.apply fields))
      (absent : name ∉ keys fields) :
      IsLastAdded (history ++ [edit]) name history.length := by
    rw [tracks.mem_keys, not_not] at absent
    exact .last absent (present member)
  refine ⟨?_, values, ?_, ?_⟩
  · rcases keys_apply fields edit with sublist | ⟨absent, appended⟩
    · exact tracks.distinct.sublist sublist
    · rw [appended]
      simpa using tracks.distinct.concat absent
  · intro name member
    by_cases before : name ∈ keys fields
    · obtain ⟨moment, added, -⟩ := tracks.added name before
      have stays : IsLastAdded (history ++ [edit]) name moment := added.append (present member)
      exact ⟨moment, stays, fun _ other => other.unique stays⟩
    · exact ⟨history.length, fresh member before, fun _ other => other.unique (fresh member before)⟩
  · rcases keys_apply fields edit with sublist | ⟨absent, appended⟩
    · apply (tracks.order.sublist sublist).imp_of_mem
      exact fun firstMember secondMember before =>
        before.append (present firstMember) (present secondMember)
    · have front {name : String} (member : name ∈ keys fields) :
          stored (history ++ [edit]) name ≠ none := by
        apply present
        rw [appended]
        exact List.mem_append_left _ member
      have back : edit.target ∈ keys (edit.apply fields) := by simp [appended]
      rw [appended, List.pairwise_append]
      refine ⟨?_, List.pairwise_singleton _ _, ?_⟩
      · apply tracks.order.imp_of_mem
        exact fun firstMember secondMember before =>
          before.append (front firstMember) (front secondMember)
      · intro name member other same
        obtain rfl := List.mem_singleton.mp same
        obtain ⟨moment, added, -⟩ := tracks.added name member
        exact ⟨moment, history.length, added.append (front member), fresh back absent, added.within⟩

theorem edits (tracks : fields.Tracks history) (edits : List Edit) :
    (edits.foldl Edit.apply fields).Tracks (history ++ edits) := by
  induction edits generalizing fields history with
  | nil => simpa using tracks
  | cons first others inductionHypothesis =>
      rw [List.foldl_cons, List.append_cons]
      exact inductionHypothesis (tracks.edit first)

/-- One operation keeps the invariant. -/
theorem operation (tracks : fields.Tracks history) (operation : Operation) :
    (operation.apply fields).Tracks (operation.record history) := by
  cases operation with
  | change edit => exact tracks.edit edit
  | collect entries =>
      have collected := Tracks.nil.edits (entries.map fun entry => .insert entry.1 entry.2)
      rw [List.foldl_map] at collected
      exact collected

theorem operations (tracks : fields.Tracks history) (operations : List Operation) :
    (operations.foldl Operation.apply fields).Tracks
      (operations.foldl Operation.record history) := by
  induction operations generalizing fields history with
  | nil => exact tracks
  | cons first others inductionHypothesis =>
      exact inductionHypothesis (tracks.operation first)

end Tracks

theorem tracks_run (operations : List Operation) : (run operations).Tracks (history operations) :=
  Tracks.nil.operations operations

/-- A field map is a map in the order of insertion, whatever operations it went through. -/
theorem run_isInsertionOrdered (operations : List Operation) :
    (run operations).Tracks (history operations) ∧
      (∀ name content,
        ((run operations).exchange name content).1 = stored (history operations) name) ∧
      (∀ name, ((run operations).extract name).1 = stored (history operations) name) ∧
      (∀ name ∈ keys (run operations),
        (∀ content, keys ((run operations).exchange name content).2 = keys (run operations)) ∧
          ∀ added, keys ((run operations).extend name added) = keys (run operations)) ∧
      (∀ name, keys ((run operations).extract name).2 = (keys (run operations)).erase name) ∧
      ∀ (edit : Edit) (other : String), edit.target ≠ other →
        get? (edit.apply (run operations)) other = get? (run operations) other := by
  have tracks := tracks_run operations
  refine ⟨tracks, fun name _ => tracks.values name, tracks.values, ?_,
    keys_erase (run operations), ?_⟩
  · intro name present
    exact ⟨keys_insert_of_mem _ present, fun _ => keys_insert_of_mem _ present _⟩
  · intro edit other different
    rw [get?_apply _ tracks.distinct, if_neg different]

end FieldMap

end ProtoWire
