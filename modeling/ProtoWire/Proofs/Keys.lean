/-!
Contract: lists whose items have keys. Under unique keys, the items with a key are at most one.

Owns:
- the items with a key, and the last of them;
- a part of the items;
- one more item under a new key;
- what holds of each item together with those before it.

Does not own: the keys of any type.
-/

namespace ProtoWire.Keys

variable {α κ : Type} {key : α → κ} {items : List α}

theorem nodup_append_singleton
    {item : α}
    (distinct : (items.map key).Nodup)
    (fresh : key item ∉ items.map key) :
    ((items ++ [item]).map key).Nodup := by
  rw [List.map_append, List.nodup_append]
  refine ⟨distinct, List.pairwise_singleton (· ≠ ·) (key item), ?_⟩
  intro present inside other same equal
  obtain rfl := List.mem_singleton.mp same
  exact fresh (equal ▸ inside)

/-! ### Items in turn -/

/-- What is asked of one item after the other is asked of each item and those before it. -/
theorem inTurn_iff
    (Runs : List α → List α → Prop)
    {Passes : List α → α → Prop}
    (done : ∀ earlier, Runs earlier [])
    (next : ∀ earlier item others,
      Runs earlier (item :: others) ↔ Passes earlier item ∧ Runs (earlier ++ [item]) others)
    (items : List α) :
    Runs [] items ↔
      ∀ before item after, items = before ++ item :: after → Passes before item := by
  suffices general : ∀ earlier, Runs earlier items ↔
      ∀ before item after, items = before ++ item :: after → Passes (earlier ++ before) item from
    general []
  induction items with
  | nil =>
      intro earlier
      simp [done]
  | cons first others inductionHypothesis =>
      intro earlier
      rw [next, inductionHypothesis]
      constructor
      · rintro ⟨passes, rest⟩ before item after cut
        cases before with
        | nil =>
            obtain ⟨rfl, rfl⟩ := List.cons.inj cut
            rwa [List.append_nil]
        | cons head before =>
            obtain ⟨rfl, tail⟩ := List.cons.inj cut
            have later := rest before item after tail
            rwa [List.append_assoc, List.singleton_append] at later
      · intro passes
        refine ⟨?_, fun before item after cut => ?_⟩
        · have now := passes [] first others rfl
          rwa [List.append_nil] at now
        · have later := passes (first :: before) item after (congrArg (first :: ·) cut)
          rwa [List.append_assoc, List.singleton_append]

theorem forall_inTurn {Holds : α → Prop} :
    (∀ before item after, items = before ++ item :: after → Holds item) ↔
      ∀ item ∈ items, Holds item := by
  constructor
  · intro holds item member
    obtain ⟨before, after, cut⟩ := List.append_of_mem member
    exact holds before item after cut
  · rintro holds before item after rfl
    exact holds item List.mem_append_cons_self

/-- Keys are unique if each of them is new after those before it. -/
theorem nodup_iff_inTurn :
    (items.map key).Nodup ↔
      ∀ before item after, items = before ++ item :: after → key item ∉ before.map key := by
  rw [← inTurn_iff fun earlier items =>
    (items.map key).Nodup ∧ ∀ item ∈ items, key item ∉ earlier.map key]
  · simp
  · simp
  · intro earlier item others
    simp only [List.map_cons, List.nodup_cons, List.forall_mem_cons, List.map_append,
      List.mem_append, List.map_nil, List.mem_singleton, List.mem_map]
    grind

variable [DecidableEq κ]

/-- Under unique keys, an item is the only one with its key. -/
theorem filter_eq_singleton
    (distinct : (items.map key).Nodup)
    {item : α}
    (member : item ∈ items) :
    (items.filter fun other => key other == key item) = [item] := by
  induction items with
  | nil => cases member
  | cons first others inductionHypothesis =>
      rw [List.map_cons, List.nodup_cons] at distinct
      rcases List.mem_cons.mp member with rfl | later
      · have none : (others.filter fun other => key other == key item) = [] := by
          rw [List.filter_eq_nil_iff]
          intro other inside same
          exact distinct.1 (eq_of_beq same ▸ List.mem_map_of_mem inside)
        rw [List.filter_cons, if_pos (beq_self_eq_true (key item)), none]
      · have different : ¬ (key first == key item) = true := fun same =>
          distinct.1 (eq_of_beq same ▸ List.mem_map_of_mem later)
        rw [List.filter_cons, if_neg different, inductionHypothesis distinct.2 later]

theorem getLast?_filter
    (distinct : (items.map key).Nodup)
    {item : α}
    (member : item ∈ items) :
    (items.filter fun other => key other == key item).getLast? = some item := by
  rw [filter_eq_singleton distinct member]
  rfl

theorem mem_of_getLast?_filter
    (key : α → κ)
    {wanted : κ}
    {item : α}
    (found : (items.filter fun other => key other == wanted).getLast? = some item) :
    item ∈ items ∧ key item = wanted := by
  obtain ⟨inside, same⟩ := List.mem_filter.mp (List.mem_of_getLast? found)
  exact ⟨inside, eq_of_beq same⟩

/-- Under unique keys, the last item with a key is the item with this key. -/
theorem getLast?_filter_eq_some
    (distinct : (items.map key).Nodup)
    {wanted : κ}
    {item : α} :
    (items.filter fun other => key other == wanted).getLast? = some item ↔
      item ∈ items ∧ key item = wanted := by
  constructor
  · exact mem_of_getLast?_filter key
  · rintro ⟨member, rfl⟩
    exact getLast?_filter distinct member

theorem getLast?_filter_eq_none
    (key : α → κ)
    {wanted : κ} :
    (items.filter fun other => key other == wanted).getLast? = none ↔
      wanted ∉ items.map key := by
  rw [List.getLast?_eq_none_iff, List.filter_eq_nil_iff, List.mem_map]
  constructor
  · rintro absent ⟨item, inside, rfl⟩
    exact absent item inside (beq_self_eq_true (key item))
  · intro absent item inside same
    exact absent ⟨item, inside, eq_of_beq same⟩

/-- Under unique keys, a part of the items that lacks an item lacks its key. -/
theorem not_mem_of_sublist
    {part : List α}
    (sublist : part.Sublist items)
    (distinct : (items.map key).Nodup)
    {item : α}
    (member : item ∈ items)
    (dropped : item ∉ part) :
    key item ∉ part.map key := by
  rw [List.mem_map]
  rintro ⟨other, kept, same⟩
  have first := getLast?_filter distinct (sublist.subset kept)
  rw [same, getLast?_filter distinct member] at first
  obtain rfl := Option.some.inj first
  exact dropped kept

theorem any_eq_false {wanted : κ} :
    (items.any fun other => key other == wanted) = false ↔ wanted ∉ items.map key := by
  rw [List.any_eq_false, List.mem_map]
  constructor
  · rintro absent ⟨item, inside, rfl⟩
    exact absent item inside (beq_self_eq_true (key item))
  · intro absent item inside same
    exact absent ⟨item, inside, eq_of_beq same⟩

end ProtoWire.Keys
