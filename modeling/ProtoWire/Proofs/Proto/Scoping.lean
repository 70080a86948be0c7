import ProtoWire.Proofs.Schema.Growth
import ProtoWire.Proto.Scope

/-!
Contract: relative names mean the definition in the innermost scope that has one. What a name means
changes only if a definition is registered in a scope further inside.

Owns:
- the scopes around a scope, described without the search;
- the innermost definition under a relative name;
- what a relative name means before and after a registration.

Does not own: absolute names, keywords, or what fields and extend blocks make of the meaning.
-/

namespace ProtoWire

open Proto

/-- A scope is around another one if it is that scope, a part of it in front of a point, or the
scope without a name. -/
def Proto.Encloses (outer scope : String) : Prop :=
  outer = scope ∨ outer = "" ∨ ∃ inner, scope = outer ++ "." ++ inner

namespace Schema

/-- A definition has the full name that a relative name gets in a scope around another one. -/
structure Matches (schema : Schema) (scope name outer : String) (index : Nat) : Prop where
  encloses : Encloses outer scope
  defines : ∃ kind, schema.definition? index = some ⟨joinName outer name, kind⟩

/-- No scope further inside has a definition under the relative name. -/
structure IsInnermost (schema : Schema) (scope name outer : String) (index : Nat) : Prop where
  hit : schema.Matches scope name outer index
  longest : ∀ other place, schema.Matches scope name other place → other.length ≤ outer.length

end Schema

namespace Proto

variable {schema : Schema} {scope name outer : String}

/-! ### The scopes around a scope -/

private theorem mem_dottedPrefixes :
    outer ∈ dottedPrefixes scope ↔ ∃ inner, scope = outer ++ "." ++ inner := by
  simp only [dottedPrefixes, List.mem_map, List.mem_filter, List.mem_reverse, List.mem_range,
    beq_iff_eq]
  constructor
  · rintro ⟨place, ⟨bound, point⟩, rfl⟩
    obtain ⟨_, found⟩ := List.getElem?_eq_some_iff.mp point
    refine ⟨String.ofList (scope.toList.drop (place + 1)), String.toList_injective ?_⟩
    simp only [String.toList_append, String.toList_ofList, String.reduceToList, List.append_assoc,
      List.singleton_append]
    rw [← found, ← List.drop_eq_getElem_cons, List.take_append_drop]
  · rintro ⟨inner, rfl⟩
    refine ⟨outer.toList.length, ⟨?_, ?_⟩, ?_⟩
    · simp only [String.toList_append, String.reduceToList, List.length_append,
        List.length_singleton]
      omega
    · simp
    · simp

theorem mem_enclosingScopes : outer ∈ enclosingScopes scope ↔ Encloses outer scope := by
  simp only [enclosingScopes, List.mem_cons, List.mem_append, mem_dottedPrefixes, Encloses,
    List.not_mem_nil, or_false]
  rw [or_comm (a := ∃ inner, _)]

/-- Further outside, scopes are shorter. -/
theorem pairwise_enclosingScopes (scope : String) :
    (enclosingScopes scope).Pairwise fun inner outer => outer.length ≤ inner.length := by
  have cut (place : Nat) : (String.ofList (scope.toList.take place)).length =
      min place scope.toList.length := by
    rw [String.length_ofList, List.length_take]
  rw [enclosingScopes, List.pairwise_cons, List.pairwise_append]
  refine ⟨?_, ?_, List.pairwise_singleton _ _, ?_⟩
  · intro outer member
    rcases List.mem_append.mp member with dotted | empty
    · obtain ⟨inner, rfl⟩ := mem_dottedPrefixes.mp dotted
      simp only [String.length_append]
      omega
    · obtain rfl := List.mem_singleton.mp empty
      exact Nat.zero_le _
  · rw [dottedPrefixes, List.pairwise_map]
    refine List.Pairwise.filter _ (List.pairwise_reverse.mpr ?_)
    refine List.pairwise_lt_range.imp fun smaller => ?_
    rw [cut, cut]
    omega
  · intro inner _ outer empty
    obtain rfl := List.mem_singleton.mp empty
    exact Nat.zero_le _

/-- Scopes around the same scope are told apart by their lengths. -/
theorem Encloses.eq_of_length
    {other : String}
    (first : Encloses outer scope)
    (second : Encloses other scope)
    (same : outer.length = other.length) :
    outer = other := by
  have front {part : String} (around : Encloses part scope) :
      part.toList = scope.toList.take part.length := by
    rw [← String.length_toList]
    rcases around with rfl | rfl | ⟨inner, rfl⟩
    · rw [List.take_length]
    · rfl
    · rw [String.toList_append, String.toList_append, List.append_assoc, List.take_left]
  apply String.toList_injective
  rw [front first, front second, same]

/-! ### Relative names -/

private theorem resolveType_of_relative
    (relative : name.toList.head? ≠ some '.')
    (noKeyword : Scalar.ofName? name = none) :
    resolveType schema scope name =
      (enclosingScopes scope).findSome? fun outer =>
        (schema.indexOf? (joinName outer name)).map .definition := by
  unfold resolveType resolveTypeBy
  split
  · rename_i absolute point
    rw [point] at relative
    exact absurd rfl relative
  · rw [noKeyword]

private theorem exists_place_iff
    (distinct : (schema.definitions.map Definition.name).Nodup)
    {type : TypeRef} :
    (schema.indexOf? (joinName outer name)).map .definition = some type ↔
      ∃ index kind, type = .definition index ∧
        schema.definition? index = some ⟨joinName outer name, kind⟩ := by
  rw [Option.map_eq_some_iff]
  constructor
  · rintro ⟨index, place, rfl⟩
    obtain ⟨kind, found⟩ := Schema.definition?_of_indexOf? place
    exact ⟨index, kind, rfl, found⟩
  · rintro ⟨index, kind, rfl, found⟩
    exact ⟨index, Schema.indexOf?_of_definition? distinct found, rfl⟩

theorem resolveType_eq_none_iff
    (relative : name.toList.head? ≠ some '.')
    (noKeyword : Scalar.ofName? name = none)
    (distinct : (schema.definitions.map Definition.name).Nodup) :
    resolveType schema scope name = none ↔
      ∀ outer index, ¬ schema.Matches scope name outer index := by
  rw [resolveType_of_relative relative noKeyword, List.findSome?_eq_none_iff]
  constructor
  · rintro nowhere outer index ⟨encloses, kind, found⟩
    have absent := nowhere outer (mem_enclosingScopes.mpr encloses)
    rw [Option.map_eq_none_iff, Schema.indexOf?_of_definition? distinct found] at absent
    cases absent
  · intro nowhere outer member
    rw [Option.eq_none_iff_forall_ne_some]
    intro type some
    obtain ⟨index, kind, -, found⟩ := (exists_place_iff distinct).mp some
    exact nowhere outer index ⟨mem_enclosingScopes.mp member, kind, found⟩

theorem resolveType_eq_some_iff
    (relative : name.toList.head? ≠ some '.')
    (noKeyword : Scalar.ofName? name = none)
    (distinct : (schema.definitions.map Definition.name).Nodup)
    {type : TypeRef} :
    resolveType schema scope name = some type ↔
      ∃ outer index, type = .definition index ∧ schema.IsInnermost scope name outer index := by
  have innermost {found : TypeRef} (resolved : resolveType schema scope name = some found) :
      ∃ outer index, found = .definition index ∧
        schema.IsInnermost scope name outer index := by
    rw [resolveType_of_relative relative noKeyword, List.findSome?_eq_some_iff] at resolved
    obtain ⟨before, outer, after, cut, place, absent⟩ := resolved
    obtain ⟨index, kind, same, definition⟩ := (exists_place_iff distinct).mp place
    have around : Encloses outer scope :=
      mem_enclosingScopes.mp (cut ▸ List.mem_append_right _ List.mem_cons_self)
    refine ⟨outer, index, same, ⟨around, kind, definition⟩, ?_⟩
    rintro other place ⟨encloses, otherKind, otherFound⟩
    have ordered := pairwise_enclosingScopes scope
    have member := mem_enclosingScopes.mpr encloses
    rw [cut] at ordered member
    rcases List.mem_append.mp member with inside | outside
    · have missing := absent other inside
      rw [Option.map_eq_none_iff, Schema.indexOf?_of_definition? distinct otherFound] at missing
      cases missing
    · rcases List.mem_cons.mp outside with rfl | further
      · exact Nat.le_refl _
      · exact (List.pairwise_cons.mp (List.pairwise_append.mp ordered).2.1).1 other further
  refine ⟨innermost, ?_⟩
  rintro ⟨outer, index, rfl, hit, longest⟩
  cases resolved : resolveType schema scope name with
  | none =>
      exact absurd hit ((resolveType_eq_none_iff relative noKeyword distinct).mp resolved _ _)
  | some type =>
      obtain ⟨other, place, rfl, otherHit, otherLongest⟩ := innermost resolved
      have same : other = outer := otherHit.encloses.eq_of_length hit.encloses
        (Nat.le_antisymm (longest other place otherHit) (otherLongest outer index hit))
      obtain ⟨otherKind, otherFound⟩ := otherHit.defines
      obtain ⟨kind, found⟩ := hit.defines
      rw [same] at otherFound
      rw [(Schema.eq_of_name distinct otherFound found).1]

/-! ### Registrations -/

/-- A definition has a full name after a registration if it had the name before, or if it is the
new one. -/
private theorem matches_register
    {added : String}
    {kind : DefinitionKind}
    {index : Nat} :
    (Schema.mk (schema.definitions ++ [⟨added, kind⟩])).Matches scope name outer index ↔
      schema.Matches scope name outer index ∨
        (index = schema.definitions.length ∧ Encloses outer scope ∧ added = joinName outer name) := by
  have look : (Schema.mk (schema.definitions ++ [⟨added, kind⟩])).definition? index =
      if index = schema.definitions.length then some ⟨added, kind⟩
      else schema.definition? index := by
    rw [Schema.definition?, Schema.definition?]
    split
    · rename_i last
      rw [last, List.getElem?_concat_length]
    · rename_i other
      rcases Nat.lt_or_gt_of_ne other with before | behind
      · rw [List.getElem?_append_left before]
      · rw [List.getElem?_eq_none (by simp; omega), List.getElem?_eq_none (by omega)]
  constructor
  · rintro ⟨encloses, found, same⟩
    rw [look] at same
    split at same
    · rename_i last
      obtain ⟨named, -⟩ := Definition.mk.inj (Option.some.inj same)
      exact .inr ⟨last, encloses, named⟩
    · exact .inl ⟨encloses, found, same⟩
  · rintro (⟨encloses, found, same⟩ | ⟨last, encloses, named⟩)
    · have bound : index < schema.definitions.length := (List.getElem?_eq_some_iff.mp same).1
      refine ⟨encloses, found, ?_⟩
      rw [look, if_neg (Nat.ne_of_lt bound), same]
    · refine ⟨encloses, kind, ?_⟩
      rw [look, if_pos last, named]

/-- A registration leaves the meaning of a relative name as it is, or gives it the meaning of the
new definition, which then stands further inside than the one that was meant before. -/
theorem resolveType_register
    (relative : name.toList.head? ≠ some '.')
    (noKeyword : Scalar.ofName? name = none)
    (distinct : (schema.definitions.map Definition.name).Nodup)
    {added : String}
    {kind : DefinitionKind}
    {grown : Schema}
    (registered : schema.register added kind = .ok grown) :
    resolveType grown scope name = resolveType schema scope name ∨
      ∃ outer, Encloses outer scope ∧ added = joinName outer name ∧
        resolveType grown scope name = some (.definition schema.definitions.length) ∧
          ∀ previous index, schema.Matches scope name previous index →
            previous.length < outer.length := by
  obtain ⟨fresh, -, rfl⟩ := Schema.register_eq_ok.mp registered
  have distinctAfter :
      ((Schema.mk (schema.definitions ++ [⟨added, kind⟩])).definitions.map
        Definition.name).Nodup :=
    Keys.nodup_append_singleton distinct fresh
  cases after : resolveType ⟨schema.definitions ++ [⟨added, kind⟩]⟩ scope name with
  | none =>
      have nowhere := (resolveType_eq_none_iff relative noKeyword distinctAfter).mp after
      refine .inl (Eq.symm ?_)
      rw [resolveType_eq_none_iff relative noKeyword distinct]
      exact fun outer index hit => nowhere outer index (matches_register.mpr (.inl hit))
  | some type =>
      obtain ⟨outer, index, rfl, hit, longest⟩ :=
        (resolveType_eq_some_iff relative noKeyword distinctAfter).mp after
      rcases matches_register.mp hit with before | ⟨rfl, encloses, named⟩
      · refine .inl (Eq.symm ?_)
        rw [resolveType_eq_some_iff relative noKeyword distinct]
        exact ⟨outer, index, rfl, before, fun other place found =>
          longest other place (matches_register.mpr (.inl found))⟩
      · refine .inr ⟨outer, encloses, named, rfl, fun previous place found => ?_⟩
        refine Nat.lt_of_le_of_ne (longest previous place (matches_register.mpr (.inl found))) ?_
        intro same
        obtain rfl := found.encloses.eq_of_length encloses same
        obtain ⟨_, definition⟩ := found.defines
        rw [named] at fresh
        exact fresh (List.mem_map_of_mem (List.mem_of_getElem? definition))

/-! ### The meaning of relative names -/

/-- A relative name means the definition in the innermost scope that has one, and nothing if no
scope has one. Registering a definition changes the meaning only to the new definition, in a scope
further inside than the one that was meant. -/
theorem resolveType_innermost
    (relative : name.toList.head? ≠ some '.')
    (noKeyword : Scalar.ofName? name = none)
    (distinct : (schema.definitions.map Definition.name).Nodup)
    (scope : String) :
    (∀ type, resolveType schema scope name = some type ↔
      ∃ outer index, type = .definition index ∧ schema.IsInnermost scope name outer index) ∧
    (resolveType schema scope name = none ↔
      ∀ outer index, ¬ schema.Matches scope name outer index) ∧
    ∀ added kind grown, schema.register added kind = .ok grown →
      resolveType grown scope name = resolveType schema scope name ∨
        ∃ outer, Encloses outer scope ∧ added = joinName outer name ∧
          resolveType grown scope name = some (.definition schema.definitions.length) ∧
            ∀ previous index, schema.Matches scope name previous index →
              previous.length < outer.length :=
  ⟨fun _ => resolveType_eq_some_iff relative noKeyword distinct,
    resolveType_eq_none_iff relative noKeyword distinct,
    fun _ _ _ registered => resolveType_register relative noKeyword distinct registered⟩

/-- A package, and the scope without a name, with an item each. -/
def alleySchema : Schema :=
  ⟨[⟨"a.b.Item", .message .empty⟩, ⟨"b.Item", .message .empty⟩]⟩

/-- The scope has two points side by side and one at its end. Behind the first of the two, a new
definition stands further inside. -/
theorem resolveType_innermost_alley :
    resolveType alleySchema "a.b..c." "b.Item" = some (.definition 0) ∧
    (∃ outer, alleySchema.IsInnermost "a.b..c." "b.Item" outer 0) ∧
    (∀ outer index, ¬ alleySchema.Matches "a.b..c." "Missing" outer index) ∧
    ∃ grown outer,
      alleySchema.register "a.b..b.Item" (.enum ⟨[]⟩) = .ok grown ∧
        resolveType grown "a.b..c." "b.Item" = some (.definition 2) ∧
        "a.b..b.Item" = joinName outer "b.Item" ∧
          ∀ previous index, alleySchema.Matches "a.b..c." "b.Item" previous index →
            previous.length < outer.length := by
  have distinct : (alleySchema.definitions.map Definition.name).Nodup := by decide
  have resolved : resolveType alleySchema "a.b..c." "b.Item" = some (.definition 0) := by
    decide +kernel
  obtain ⟨meaning, -, registering⟩ :=
    resolveType_innermost (by decide : "b.Item".toList.head? ≠ some '.') (by decide) distinct
      "a.b..c."
  obtain ⟨outer, _, same, innermost⟩ := (meaning _).mp resolved
  obtain rfl := TypeRef.definition.inj same
  obtain ⟨-, nowhere, -⟩ :=
    resolveType_innermost (by decide : "Missing".toList.head? ≠ some '.') (by decide) distinct
      "a.b..c."
  obtain ⟨grown, registered⟩ :
      ∃ grown, alleySchema.register "a.b..b.Item" (.enum ⟨[]⟩) = .ok grown := ⟨_, rfl⟩
  refine ⟨resolved, ⟨outer, innermost⟩, nowhere.mp (by decide +kernel), grown, ?_⟩
  rcases registering _ _ grown registered with unchanged | ⟨inner, -, named, meant, longer⟩
  · obtain rfl := Except.ok.inj registered
    exact absurd (unchanged.trans resolved) (by decide +kernel)
  · exact ⟨inner, registered, meant, named, longer⟩

end Proto

end ProtoWire
