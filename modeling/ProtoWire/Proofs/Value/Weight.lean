import ProtoWire.Codec.Encode
import ProtoWire.Proofs.Value.Parts

/-!
Contract: how large a value is, counted in its parts and in the bytes of its text and byte strings.

Owns:
- the count of the parts of a value and of the bytes in its leaves;
- the weight of arrays, of objects and of leaves;
- the weight of fields that are set and extended.

Does not own: how many bytes a value takes on the wire.
-/

namespace ProtoWire

namespace Schema

/-! ### Sums of sizes -/

theorem totalSize_append (first second : List Nat) :
    totalSize (first ++ second) = totalSize first + totalSize second := by
  induction first with
  | nil => exact (Nat.zero_add _).symm
  | cons size others inductionHypothesis =>
      show size + totalSize (others ++ second) = size + totalSize others + totalSize second
      omega

theorem totalSize_flatten (groups : List (List Nat)) :
    totalSize groups.flatten = totalSize (groups.map totalSize) := by
  induction groups with
  | nil => rfl
  | cons group others inductionHypothesis =>
      rw [List.flatten_cons, totalSize_append, inductionHypothesis]
      rfl

/-- Sizes that count one more each count one more for each part. -/
theorem totalSize_map_succ {α : Type} (size : α → Nat) (parts : List α) :
    totalSize (parts.map fun part => 1 + size part) =
      parts.length + totalSize (parts.map size) := by
  induction parts with
  | nil => rfl
  | cons part others inductionHypothesis =>
      show 1 + size part + totalSize (others.map fun part => 1 + size part) =
        others.length + 1 + (size part + totalSize (others.map size))
      omega

end Schema

open Schema (totalSize totalSize_append totalSize_flatten totalSize_map_succ)

namespace Value

/-- The bytes that a text or a byte string holds. -/
def ownBytes : Value → Nat
  | .string text => text.utf8ByteSize
  | .bytes run => run.length
  | _ => 0

/-- How many leaves, arrays and objects a value consists of. -/
def nodeCount (value : Value) : Nat :=
  value.parts.length

/-- How many bytes the texts and byte strings inside of a value hold. -/
def contentSize (value : Value) : Nat :=
  totalSize (value.parts.map ownBytes)

/-- One for each part, and one for each byte in a leaf. -/
def weight (value : Value) : Nat :=
  totalSize (value.parts.map fun part => 1 + part.ownBytes)

theorem weight_eq (value : Value) : value.weight = value.nodeCount + value.contentSize :=
  totalSize_map_succ ownBytes value.parts

theorem partsOfElements_eq (elements : List Value) :
    partsOfElements elements = (elements.map parts).flatten := by
  induction elements with
  | nil => rw [partsOfElements, List.map_nil, List.flatten_nil]
  | cons element others inductionHypothesis =>
      rw [partsOfElements, inductionHypothesis, List.map_cons, List.flatten_cons]

theorem partsOfFields_eq (fields : List (String × Value)) :
    partsOfFields fields = partsOfElements (fields.map Prod.snd) := by
  induction fields with
  | nil => rw [partsOfFields, List.map_nil, partsOfElements]
  | cons entry others inductionHypothesis =>
      rw [partsOfFields, inductionHypothesis, List.map_cons, partsOfElements]

private theorem weight_partsOfElements (elements : List Value) :
    totalSize ((partsOfElements elements).map fun part => 1 + part.ownBytes) =
      totalSize (elements.map weight) := by
  rw [partsOfElements_eq, List.map_flatten, totalSize_flatten, List.map_map, List.map_map]
  rfl

theorem weight_leaf {value : Value} (leaf : value.IsLeaf) : value.weight = 1 + value.ownBytes := by
  rw [weight, leaf.parts_eq]
  rfl

theorem weight_array (elements : List Value) :
    (array elements).weight = 1 + totalSize (elements.map weight) := by
  rw [weight, parts, List.map_cons, ← weight_partsOfElements]
  rfl

end Value

namespace FieldMap

/-- What the fields of an object weigh together. -/
def weight (fields : FieldMap Value) : Nat :=
  totalSize (fields.map fun entry => entry.2.weight)

theorem weight_object (typeName : String) (fields : FieldMap Value) :
    (Value.object typeName fields).weight = 1 + weight fields := by
  have contents : weight fields = totalSize ((fields.map Prod.snd).map Value.weight) := by
    rw [List.map_map]
    rfl
  rw [Value.weight, Value.parts, List.map_cons, contents, Value.partsOfFields_eq,
    ← Value.weight_partsOfElements]
  rfl

/-- A field that is set weighs what it holds now instead of what it held before. -/
theorem weight_insert (fields : FieldMap Value) (name : String) (content : Value) :
    weight (insert fields name content) + ((get? fields name).map Value.weight).getD 0 =
      weight fields + content.weight := by
  induction fields with
  | nil =>
      show content.weight + 0 + 0 = 0 + content.weight
      omega
  | cons entry others inductionHypothesis =>
      obtain ⟨key, old⟩ := entry
      rw [insert, get?]
      by_cases same : key = name
      · rw [if_pos same, if_pos same]
        show content.weight + weight others + old.weight = old.weight + weight others + content.weight
        omega
      · rw [if_neg same, if_neg same]
        show old.weight + weight (insert others name content) + _ =
          old.weight + weight others + content.weight
        omega

/-- Extending an array costs the elements that are added, and the array itself if it is new. -/
theorem weight_extend_le (fields : FieldMap Value) (name : String) (added : List Value) :
    weight (extend fields name added) ≤
      weight fields + (1 + totalSize (added.map Value.weight)) := by
  have exchanged := weight_insert fields name (.array (elements fields name ++ added))
  rw [Value.weight_array, List.map_append, totalSize_append] at exchanged
  have before : totalSize ((elements fields name).map Value.weight) ≤
      ((get? fields name).map Value.weight).getD 0 := by
    unfold elements
    cases get? fields name with
    | none => exact Nat.le_refl 0
    | some held =>
        cases held with
        | array present =>
            show totalSize (present.map Value.weight) ≤ (Value.array present).weight
            rw [Value.weight_array]
            omega
        | _ => exact Nat.zero_le _
  unfold extend
  omega

end FieldMap

end ProtoWire
