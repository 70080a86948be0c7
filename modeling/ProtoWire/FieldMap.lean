/-!
Contract: the fields of a message, in the order in which they were first set.

Owns:
- looking up, setting and removing a field;
- the keys of a map after each of these.

Does not own: what the fields hold.
-/

namespace ProtoWire

/-- Named entries in the order in which they were added. -/
abbrev FieldMap (α : Type) : Type :=
  List (String × α)

namespace FieldMap

variable {α : Type}

def keys (fields : FieldMap α) : List String :=
  fields.map Prod.fst

/-- The entry under a name. -/
def get? (fields : FieldMap α) (name : String) : Option α :=
  match fields with
  | [] => none
  | (key, value) :: others => if key = name then some value else get? others name

def contains (fields : FieldMap α) (name : String) : Bool :=
  (get? fields name).isSome

/-- Sets an entry. An entry that is present keeps its place. -/
def insert (fields : FieldMap α) (name : String) (value : α) : FieldMap α :=
  match fields with
  | [] => [(name, value)]
  | (key, old) :: others =>
      if key = name then (key, value) :: others else (key, old) :: insert others name value

/-- Removes an entry. The others keep their order. -/
def erase (fields : FieldMap α) (name : String) : FieldMap α :=
  match fields with
  | [] => []
  | (key, old) :: others => if key = name then others else (key, old) :: erase others name

/-- Sets an entry and returns the one that it replaces. -/
def exchange (fields : FieldMap α) (name : String) (value : α) : Option α × FieldMap α :=
  (get? fields name, insert fields name value)

/-- Removes an entry and returns it. -/
def extract (fields : FieldMap α) (name : String) : Option α × FieldMap α :=
  (get? fields name, erase fields name)

/-- Sets an entry only if it is present. -/
def replace? (fields : FieldMap α) (name : String) (value : α) : Option (FieldMap α) :=
  if contains fields name then some (insert fields name value) else none

/-- The map that the entries build when they are set one after the other. -/
def ofList (entries : List (String × α)) : FieldMap α :=
  entries.foldl (fun fields entry => insert fields entry.1 entry.2) []

@[simp] theorem get?_nil (name : String) : get? ([] : FieldMap α) name = none := rfl

theorem get?_insert
    (fields : FieldMap α)
    (name other : String)
    (value : α) :
    get? (insert fields name value) other =
      if name = other then some value else get? fields other := by
  induction fields with
  | nil => simp [insert, get?]
  | cons entry others step =>
    obtain ⟨key, old⟩ := entry
    by_cases same : key = name
    · subst same
      by_cases found : key = other <;> simp [insert, get?, found]
    · by_cases found : key = other
      · subst found
        have different : ¬ name = key := fun equal => same equal.symm
        simp [insert, get?, same, different]
      · simp [insert, get?, same, found, step]

theorem keys_insert
    (fields : FieldMap α)
    (name : String)
    (value : α) :
    keys (insert fields name value) =
      if name ∈ keys fields then keys fields else keys fields ++ [name] := by
  induction fields with
  | nil => simp [insert, keys]
  | cons entry others step =>
    obtain ⟨key, old⟩ := entry
    by_cases same : key = name
    · subst same
      simp [insert, keys]
    · have different : ¬ name = key := fun equal => same equal.symm
      simp only [keys] at step
      by_cases present : name ∈ others.map Prod.fst
      · simp [insert, keys, same, step, present]
      · simp [insert, keys, same, different, step, present]

theorem keys_erase (fields : FieldMap α) (name : String) :
    keys (erase fields name) = (keys fields).erase name := by
  induction fields with
  | nil => rfl
  | cons entry others step =>
    obtain ⟨key, old⟩ := entry
    by_cases same : key = name
    · subst same
      simp [erase, keys]
    · simp only [keys] at step
      simp [erase, keys, same, step]

end FieldMap

end ProtoWire
