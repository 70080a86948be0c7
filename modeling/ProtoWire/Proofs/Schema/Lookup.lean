import ProtoWire.Proofs.Schema.WellFormed

/-!
Contract: under the rules, every look-up is exact. It returns what has the name or the number, and
nothing else.

Owns:
- the look-ups of definitions, fields and the values of enums, as equivalences.

Does not own: which schemas obey the rules.
-/

namespace ProtoWire

namespace MessageType.WellFormed

variable {schema : Schema} {message : MessageType}

theorem fieldByTag?_eq_some
    (wellFormed : message.WellFormed schema)
    {tag : Nat}
    {field : Field} :
    message.fieldByTag? tag = some field ↔ field ∈ message.fields ∧ field.tag = tag :=
  Keys.getLast?_filter_eq_some wellFormed.tags

theorem fieldByName?_eq_some
    (wellFormed : message.WellFormed schema)
    {name : String}
    {field : Field} :
    message.fieldByName? name = some field ↔ field ∈ message.fields ∧ field.name = name :=
  Keys.getLast?_filter_eq_some wellFormed.names

end MessageType.WellFormed

namespace EnumType

variable {enum : EnumType}

theorem WellFormed.numberOf?_eq_some
    (wellFormed : enum.WellFormed)
    {name : String}
    {number : Int32} :
    enum.numberOf? name = some number ↔ ⟨name, number⟩ ∈ enum.values := by
  rw [numberOf?, Option.map_eq_some_iff]
  constructor
  · rintro ⟨value, last, rfl⟩
    obtain ⟨member, rfl⟩ := (Keys.getLast?_filter_eq_some wellFormed).mp last
    exact member
  · intro member
    exact ⟨_, (Keys.getLast?_filter_eq_some wellFormed).mpr ⟨member, rfl⟩, rfl⟩

/-- A number has the name under which it is declared first, whatever the names are. -/
theorem nameOf?_eq_some {number : Int32} {name : String} :
    enum.nameOf? number = some name ↔
      ∃ before after, enum.values = before ++ ⟨name, number⟩ :: after ∧
        ∀ value ∈ before, value.number ≠ number := by
  rw [nameOf?, Option.map_eq_some_iff]
  constructor
  · rintro ⟨⟨full, found⟩, first, rfl⟩
    obtain ⟨same, before, after, cut, earlier⟩ := List.find?_eq_some_iff_append.mp first
    obtain rfl : found = number := eq_of_beq same
    exact ⟨before, after, cut, by simpa using earlier⟩
  · rintro ⟨before, after, cut, earlier⟩
    refine ⟨⟨name, number⟩, List.find?_eq_some_iff_append.mpr ?_, rfl⟩
    exact ⟨beq_self_eq_true number, before, after, cut, by simpa using earlier⟩

end EnumType

namespace Schema.WellFormed

variable {schema : Schema}

/-- The places of names are the inverse of the list of definitions. -/
theorem indexOf?_eq_some
    (wellFormed : schema.WellFormed)
    {name : String}
    {index : Nat} :
    schema.indexOf? name = some index ↔ ∃ kind, schema.definition? index = some ⟨name, kind⟩ := by
  constructor
  · exact definition?_of_indexOf?
  · rintro ⟨kind, found⟩
    exact indexOf?_of_definition? wellFormed.names found

/-- No keyword hides a definition. -/
theorem resolve_of_definition?
    (wellFormed : schema.WellFormed)
    {name : String}
    {index : Nat}
    {kind : DefinitionKind}
    (found : schema.definition? index = some ⟨name, kind⟩) :
    schema.resolve name = .ok (.definition index) := by
  have member : name ∈ schema.definitions.map Definition.name :=
    List.mem_map_of_mem (List.mem_of_getElem? found)
  have place := wellFormed.indexOf?_eq_some.mpr ⟨kind, found⟩
  rw [resolve, wellFormed.keywords name member, place]

end Schema.WellFormed

end ProtoWire
