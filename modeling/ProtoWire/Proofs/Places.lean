import Mathlib.Data.List.Basic
import ProtoWire.Proofs.Keys

/-!
Contract: maps from keys to the places of the items of a list. A map that notes the place of every
item that the list gets finds the last item with a key, or the first one if it keeps what it has.

Owns:
- the place of the last item with a key;
- maps that find the last or the first item with a key, and how they grow with the list;
- the items at the places that they find.

Does not own: the lists and maps of any type.
-/

namespace ProtoWire.Places

open Std (HashMap)

section Last

variable {α β κ : Type}

private theorem keys_zipIdx (key : α → κ) (items : List α) :
    items.zipIdx.map (fun entry => key entry.1) = items.map key := by
  change items.zipIdx.map (key ∘ Prod.fst) = _
  rw [← List.map_map, List.zipIdx_map_fst]

variable [BEq κ]

/-- The place of the last of some items with a key. -/
def last? (key : α → κ) (items : List α) (wanted : κ) : Option Nat :=
  ((items.zipIdx.filter fun entry => key entry.1 == wanted).getLast?).map Prod.snd

theorem last?_concat (key : α → κ) (items : List α) (item : α) (wanted : κ) :
    last? key (items ++ [item]) wanted =
      if key item == wanted then some items.length else last? key items wanted := by
  unfold last?
  rw [List.zipIdx_append, List.filter_append, Nat.zero_add, List.zipIdx_singleton]
  by_cases same : (key item == wanted) = true
  · rw [if_pos same, List.filter_cons, if_pos same, List.filter_nil, List.getLast?_concat]
    rfl
  · rw [if_neg same, List.filter_cons, if_neg same, List.filter_nil, List.append_nil]

/-- The places of keys depend on the keys alone. -/
theorem last?_of_map
    {key : α → κ}
    {items : List α}
    {view : β → κ}
    {others : List β}
    (same : others.map view = items.map key) :
    last? view others = last? key items := by
  have byKeys {γ : Type} (key : γ → κ) (items : List γ) (wanted : κ) :
      last? key items wanted = last? id (items.map key) wanted := by
    unfold last?
    rw [List.zipIdx_map, List.filter_map, List.getLast?_map, Option.map_map]
    rfl
  funext wanted
  rw [byKeys view, same, ← byKeys key]

/-- At the last place with a key stands the last item with it. -/
theorem last?_item (key : α → κ) (items : List α) (wanted : κ) :
    ((last? key items wanted).bind fun place => items[place]?) =
      (items.filter fun item => key item == wanted).getLast? := by
  have withoutPlaces : (items.filter fun item => key item == wanted) =
      (items.zipIdx.filter fun entry => key entry.1 == wanted).map Prod.fst := by
    conv_lhs => rw [← List.zipIdx_map_fst 0 items, List.filter_map]
    rfl
  unfold last?
  rw [withoutPlaces, List.getLast?_map]
  cases last : (items.zipIdx.filter fun entry => key entry.1 == wanted).getLast? with
  | none => rfl
  | some entry =>
      have member := (List.mem_filter.mp (List.mem_of_getLast? last)).1
      exact List.mem_zipIdx_iff_getElem?.mp member

end Last

section Keys

variable {α κ : Type} [DecidableEq κ] {key : α → κ} {items : List α} {wanted : κ} {place : Nat}

theorem exists_of_last? (found : last? key items wanted = some place) :
    ∃ item, items[place]? = some item ∧ key item = wanted := by
  obtain ⟨entry, last, rfl⟩ := Option.map_eq_some_iff.mp found
  obtain ⟨member, same⟩ := Keys.mem_of_getLast?_filter (fun entry : α × Nat => key entry.1) last
  exact ⟨entry.1, List.mem_zipIdx_iff_getElem?.mp member, same⟩

theorem last?_eq_none : last? key items wanted = none ↔ wanted ∉ items.map key := by
  rw [last?, Option.map_eq_none_iff,
    Keys.getLast?_filter_eq_none fun entry : α × Nat => key entry.1, keys_zipIdx]

/-- Under unique keys, the place of an item is found by its key. -/
theorem last?_of_getElem?
    (distinct : (items.map key).Nodup)
    {item : α}
    (found : items[place]? = some item) :
    last? key items (key item) = some place := by
  have keys : (items.zipIdx.map fun entry => key entry.1).Nodup := by
    rw [keys_zipIdx]
    exact distinct
  have member : (item, place) ∈ items.zipIdx := List.mem_zipIdx_iff_getElem?.mpr found
  have last := Keys.getLast?_filter keys member
  rw [last?, last]
  rfl

end Keys

/-! ### Maps -/

variable {α β κ : Type} [DecidableEq κ] [Hashable κ]

/-- A map leads from every key to the last item with it. -/
def FindsLast (places : HashMap κ Nat) (key : α → κ) (items : List α) : Prop :=
  ∀ wanted, places[wanted]? = last? key items wanted

/-- A map leads from every key to the first item with it. -/
def FindsFirst (places : HashMap κ Nat) (key : α → κ) (items : List α) : Prop :=
  ∀ wanted, places[wanted]? = items.findIdx? fun item => key item == wanted

variable {places : HashMap κ Nat} {key : α → κ} {items : List α} {wanted : κ}

theorem findsLast_nil (key : α → κ) : FindsLast ∅ key [] :=
  fun _ => HashMap.getElem?_empty

theorem findsFirst_nil (key : α → κ) : FindsFirst ∅ key [] :=
  fun _ => HashMap.getElem?_empty

/-- The place of a new item replaces what was noted under its key. -/
theorem FindsLast.concat (finds : FindsLast places key items) (item : α) :
    FindsLast (places.insert (key item) items.length) key (items ++ [item]) := by
  intro wanted
  rw [HashMap.getElem?_insert, last?_concat, finds wanted]

/-- The place of a new item is noted only if nothing is noted under its key. -/
theorem FindsFirst.concat (finds : FindsFirst places key items) (item : α) :
    FindsFirst (places.insertIfNew (key item) items.length) key (items ++ [item]) := by
  intro wanted
  rw [HashMap.getElem?_insertIfNew, List.findIdx?_append, ← finds wanted]
  by_cases same : key item = wanted
  · subst same
    by_cases noted : key item ∈ places
    · obtain ⟨place, known⟩ :=
        Option.isSome_iff_exists.mp (HashMap.mem_iff_isSome_getElem?.mp noted)
      rw [if_neg fun fresh => fresh.2 noted, known, Option.some_or]
    · rw [if_pos ⟨beq_self_eq_true _, noted⟩, HashMap.getElem?_eq_none noted, Option.none_or]
      simp
  · simp [same]

theorem FindsLast.of_map
    {others : List β}
    {view : β → κ}
    (finds : FindsLast places key items)
    (same : others.map view = items.map key) :
    FindsLast places view others := by
  intro wanted
  rw [finds wanted, last?_of_map same]

theorem FindsLast.item (finds : FindsLast places key items) (wanted : κ) :
    (places[wanted]?.bind fun place => items[place]?) =
      (items.filter fun item => key item == wanted).getLast? := by
  rw [finds wanted, last?_item]

theorem FindsFirst.item (finds : FindsFirst places key items) (wanted : κ) :
    (places[wanted]?.bind fun place => items[place]?) =
      items.find? fun item => key item == wanted := by
  rw [finds wanted, List.find?_eq_bind_findIdx?_getElem?]

/-- Under unique keys, a map that finds the last items is the inverse of their list. -/
theorem FindsLast.eq_some
    (finds : FindsLast places key items)
    (distinct : (items.map key).Nodup)
    {place : Nat} :
    places[wanted]? = some place ↔ ∃ item, items[place]? = some item ∧ key item = wanted := by
  rw [finds wanted]
  constructor
  · exact exists_of_last?
  · rintro ⟨item, found, rfl⟩
    exact last?_of_getElem? distinct found

end ProtoWire.Places
