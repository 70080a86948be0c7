import ProtoWire.Proofs.Proto.Compilation
import ProtoWire.Proofs.Proto.Indexed
import ProtoWire.Proofs.Schema.IndexedRules

/-!
Contract: a compiled schema can be changed afterwards, by frames around its messages and by the
extensions of further files. No sequence of such changes breaks the rules on schemas or makes a map
differ from its list, whether the changes succeed, fail or stop half-way.

Owns:
- the changes, and the schema that each of them leaves, with maps and without them;
- the rules on every schema that changes lead to.

Does not own: what a single registration or a single extension does.
-/

namespace ProtoWire.Proto

/-- What can be done to a compiled schema. The files need not be legal. -/
inductive Change where
  | frame (name inner : String) (lengthType : Option String) (length : Option Nat)
  | merge (file : FileDecl)

/-- The schema that a change leaves, whether it succeeds or fails. Frames that are refused change
nothing; an extension that is refused leaves those before it. -/
def Change.leaves : Change → Schema → Schema
  | .frame name inner lengthType length, schema =>
      match schema.registerFramed name inner lengthType length with
      | .ok extended => extended
      | .error _ => schema
  | .merge file, schema => (mergeFile file).leaves schema

/-- The schema that some changes leave, one after the other. -/
def Change.run (changes : List Change) (schema : Schema) : Schema :=
  changes.foldl (fun schema change => change.leaves schema) schema

namespace Indexed

/-- What an extension leaves, whether it succeeds or stops. -/
def Merge.leaves (merge : Merge) (schema : IndexedSchema) : IndexedSchema :=
  match merge schema with
  | .ok _ extended => extended
  | .error _ reached => reached

/-- The schema with maps that a change leaves. -/
def leaves : Change → IndexedSchema → IndexedSchema
  | .frame name inner lengthType length, schema =>
      match schema.registerFramed name inner lengthType length with
      | .ok extended => extended
      | .error _ => schema
  | .merge file, schema => (mergeFile file).leaves schema

/-- The schema with maps that some changes leave, one after the other. -/
def run (changes : List Change) (schema : IndexedSchema) : IndexedSchema :=
  changes.foldl (fun schema change => leaves change schema) schema

end Indexed

/-! ### The rules on the lists -/

section Lists

variable {schema : Schema}

theorem Change.wellFormed_leaves
    (wellFormed : schema.WellFormed)
    (change : Change) :
    (change.leaves schema).WellFormed := by
  cases change with
  | frame name inner lengthType length =>
      simp only [leaves]
      split
      · rename_i registered
        exact wellFormed.registerFramed registered
      · exact wellFormed
  | merge file => exact wellFormed_mergeFile wellFormed file

theorem Change.wellFormed_run
    (wellFormed : schema.WellFormed)
    (changes : List Change) :
    (Change.run changes schema).WellFormed := by
  induction changes generalizing schema with
  | nil => exact wellFormed
  | cons change others inductionHypothesis =>
      exact inductionHypothesis (change.wellFormed_leaves wellFormed)

end Lists

/-! ### The maps -/

variable {schema : IndexedSchema}

/-- A change does to the lists what it does without maps, and the maps agree with what it leaves. -/
theorem Indexed.leaves_agrees (agrees : schema.Agrees) (change : Change) :
    (leaves change schema).Agrees ∧ (leaves change schema).plain = change.leaves schema.plain := by
  cases change with
  | frame name inner lengthType length =>
      have alike := agrees.registerFramed name inner lengthType length
      simp only [leaves, Change.leaves]
      revert alike
      generalize schema.registerFramed name inner lengthType length = indexed
      generalize schema.plain.registerFramed name inner lengthType length = plain
      rintro (⟨after⟩ | cause)
      · exact ⟨after, rfl⟩
      · exact ⟨agrees, rfl⟩
  | merge file =>
      have alike := mergeFile_alike agrees file
      simp only [leaves, Change.leaves, Merge.leaves, Proto.Merge.leaves]
      revert alike
      generalize mergeFile file schema = indexed
      generalize Proto.mergeFile file schema.plain = plain
      rintro (⟨after⟩ | ⟨cause, reached⟩)
      · exact ⟨after, rfl⟩
      · exact ⟨reached, rfl⟩

theorem Indexed.run_agrees (agrees : schema.Agrees) (changes : List Change) :
    (run changes schema).Agrees ∧ (run changes schema).plain = Change.run changes schema.plain := by
  induction changes generalizing schema with
  | nil => exact ⟨agrees, rfl⟩
  | cons change others inductionHypothesis =>
      obtain ⟨after, same⟩ := leaves_agrees agrees change
      obtain ⟨last, lists⟩ := inductionHypothesis after
      rw [same] at lists
      exact ⟨last, lists⟩

/-- Whatever is done to a compiled schema, its lists and its maps obey the rules, and the lists are
those of a compilation and of changes without maps. -/
theorem wellFormed_of_changes
    {files : List FileDecl}
    (compiled : Indexed.compileFiles files = .ok schema)
    (changes : List Change) :
    (Indexed.run changes schema).WellFormed ∧
      compileFiles files = .ok schema.plain ∧
      (Indexed.run changes schema).plain = Change.run changes schema.plain := by
  obtain ⟨agrees, lists⟩ := (Indexed.compileFiles_alike files).eq_ok compiled
  obtain ⟨agreesAfter, listsAfter⟩ := Indexed.run_agrees agrees changes
  have wellFormed := Change.wellFormed_run (wellFormed_of_compileFiles lists) changes
  rw [← listsAfter] at wellFormed
  exact ⟨agreesAfter.wellFormed wellFormed, lists, listsAfter⟩

/-- A file with a message, an enum with two names for a number, and room for extensions. -/
def gardenFile : FileDecl :=
  ⟨.proto3, none, [],
    [⟨"Plant", .first, [⟨"colors", .first, "Color", 1, .repeated, none, none⟩], [], [], [],
      [⟨10, 12⟩]⟩],
    [⟨"Color", .first, [⟨"GREEN", .first, 0⟩, ⟨"LEAF", .first, 0⟩]⟩],
    []⟩

/-- Extensions that no check has seen. The third one has the number of the first one. -/
def graftFile : FileDecl :=
  ⟨.proto2, none, [], [], [],
    [⟨"Plant", .first,
      [⟨"parent", .first, "Plant", 10, .none, none, none⟩,
       ⟨"heights", .first, "sint32", 11, .repeated, none, some true⟩,
       ⟨"again", .first, "Plant", 10, .none, none, none⟩]⟩]⟩

def gardenSchema : Schema :=
  ⟨[⟨"Plant", .message ⟨[⟨"colors", 1, .definition 1, .repeated, true⟩], [(10, 12)]⟩⟩,
    ⟨"Color", .enum ⟨[⟨"GREEN", 0⟩, ⟨"LEAF", 0⟩]⟩⟩]⟩

def graftedSchema : Schema :=
  ⟨[⟨"Plant", .message
      ⟨[⟨"colors", 1, .definition 1, .repeated, true⟩,
        ⟨"parent", 10, .definition 0, .optional, false⟩,
        ⟨"heights", 11, .scalar .sint32, .repeated, true⟩], [(10, 12)]⟩⟩,
    ⟨"Color", .enum ⟨[⟨"GREEN", 0⟩, ⟨"LEAF", 0⟩]⟩⟩,
    ⟨"Pot", .framed ⟨0, .fixed 4⟩⟩]⟩

/-- Frames, frames under a name that is taken, and extensions that stop half-way. -/
theorem wellFormed_of_changes_garden :
    ∃ schema changed, Indexed.compileFiles [gardenFile] = .ok schema ∧
      schema.plain = gardenSchema ∧
      Indexed.run
        [.frame "Pot" "Plant" none (some 4), .frame "Color" "Plant" (some "uint32") none,
          .merge graftFile] schema = changed ∧
      changed.plain = graftedSchema ∧ changed.WellFormed ∧
      changed.places["Pot"]? = some 2 := by
  have lists : compileFiles [gardenFile] = .ok gardenSchema := rfl
  obtain ⟨schema, compiled, listed⟩ := (Indexed.compileFiles_alike [gardenFile]).exists_of_ok lists
  obtain ⟨wellFormed, -, left⟩ := wellFormed_of_changes compiled
    [.frame "Pot" "Plant" none (some 4), .frame "Color" "Plant" (some "uint32") none,
      .merge graftFile]
  rw [listed] at left
  have grafted := left.trans (rfl : _ = graftedSchema)
  have third := congrArg (fun lists => lists.definition? 2) grafted
  rw [IndexedSchema.definition?_plain] at third
  obtain ⟨pot, found, same⟩ := Option.map_eq_some_iff.mp third
  exact ⟨schema, _, compiled, listed, rfl, grafted, wellFormed,
    (wellFormed.places "Pot" 2).mpr ⟨pot, found, congrArg Definition.name same⟩⟩

end ProtoWire.Proto
