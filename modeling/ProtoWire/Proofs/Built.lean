import ProtoWire.Proofs.Codec.Depth
import ProtoWire.Proofs.Codec.Reencoding
import ProtoWire.Proofs.Codec.Streams
import ProtoWire.Proofs.Proto.Compilation

/-!
Contract: what holds of every schema that sources are compiled to, and of those with frames
registered afterwards.

Owns:
- the round trip of every value of every type of such a schema;
- the second round of every value that was decoded as a message of such a schema;
- the reading of frames that were registered, one behind the other;
- the exact limit on nested messages.

Does not own: the rules from which all of these follow.
-/

namespace ProtoWire.Proto

open Outcome

variable {schema : Schema}

/-! ### A schema with a frame -/

/-- A message that holds itself and an enum with two names for a number. -/
def treeSource : String :=
  "enum Color \x7b GREEN = 0; LEAF = 0; \x7d
  message Tree \x7b
    repeated sint32 rings = 1;
    optional Tree crown = 2;
    optional Color color = 3;
  \x7d"

def treeDefinitions : List Definition :=
  [⟨"Tree", .message
      ⟨[⟨"rings", 1, .scalar .sint32, .repeated, false⟩,
        ⟨"crown", 2, .definition 0, .optional, false⟩,
        ⟨"color", 3, .definition 1, .optional, false⟩], []⟩⟩,
    ⟨"Color", .enum ⟨[⟨"GREEN", 0⟩, ⟨"LEAF", 0⟩]⟩⟩]

def treeSchema : Schema :=
  ⟨treeDefinitions⟩

/-- Trees with their length in front. -/
def forestSchema : Schema :=
  ⟨treeDefinitions ++ [⟨"Frame", .framed ⟨0, .prefixed .uint32⟩⟩]⟩

theorem built_treeSchema : Built treeSchema := by
  have compiled : (compileSources .default [treeSource]).toOption = some treeSchema := by
    decide +kernel
  exact .compiled (eq_ok_of_toOption compiled)

theorem built_forestSchema : Built forestSchema := by
  have registered :
      treeSchema.registerFramed "Frame" "Tree" (some "uint32") none = .ok forestSchema := rfl
  exact .framed built_treeSchema registered

/-! ### Round trips -/

/-- Decoding what was encoded as a type gives the canonical form of the value and takes all bytes,
if its declared fields hold at most `maxDepth` messages below the root, as they do if the value
does (`Schema.nesting_canonical_le`). Lengths on the wire are words of 64 bits. -/
theorem Built.decode_of_encode
    (built : Built schema)
    {name : String}
    {type : TypeRef}
    {value : Value}
    {bytes : List UInt8}
    (resolved : schema.resolve name = .ok type)
    (encoded : schema.encode name value = .ok bytes)
    (fits : bytes.length < UInt64.size)
    (shallow : (schema.canonical type value).nesting ≤ maxDepth + 1) :
    schema.decode name bytes = .ok (schema.canonical type value, bytes.length) :=
  built.wellFormed.decode_encode resolved encoded fits shallow

/-- A tree with a field that is not declared and with an empty array. -/
def noisyTree : Value :=
  .object "Tree"
    [("color", .enum "Color" "LEAF"),
     ("noise", .bool true),
     ("rings", .array [.int32 (-3)]),
     ("crown", .object "Tree" [("rings", .array [])])]

/-- The fields come back in the order of their descriptors, and the enum under the first name of
its number. -/
theorem decode_of_encode_forest :
    forestSchema.encode "Frame" noisyTree = .ok [6, 8, 5, 18, 0, 24, 0] ∧
    forestSchema.decode "Frame" [6, 8, 5, 18, 0, 24, 0] =
      .ok (.object "Tree"
        [("rings", .array [.int32 (-3)]),
         ("crown", .object "Tree" []),
         ("color", .enum "Color" "GREEN")], 7) := by
  have encoded : forestSchema.encode "Frame" noisyTree = .ok [6, 8, 5, 18, 0, 24, 0] :=
    eq_ok_of_toOption (by decide +kernel)
  have resolved : forestSchema.resolve "Frame" = .ok (.definition 2) := rfl
  exact ⟨encoded,
    built_forestSchema.decode_of_encode resolved encoded (by decide) (by decide +kernel)⟩

/-- What was decoded as a message is encoded unless one of its objects lacks a required field.
Decoding a second time then gives the value without its empty arrays, up to the order of fields,
and encoding a second time gives the same bytes. -/
theorem Built.reencode_of_decode
    (built : Built schema)
    {name messageName : String}
    {index : Nat}
    {message : MessageType}
    (resolved : schema.resolve name = .ok (.definition index))
    (found : schema.definition? index = some ⟨messageName, .message message⟩)
    {bytes : List UInt8}
    {value : Value}
    {consumed : Nat}
    (decoded : schema.decode name bytes = .ok (value, consumed)) :
    ((∃ written, schema.encode name value = .ok written) ∨
        ∃ owner field,
          schema.encode name value = .error (.missingRequiredField owner field)) ∧
      ((∃ written, schema.encode name value = .ok written) ↔ schema.IsComplete value) ∧
      ∀ written, schema.encode name value = .ok written → written.length < UInt64.size →
        ∃ again, schema.decode name written = .ok (again, written.length) ∧
          again.SameUpToOrder value.withoutEmptyArrays ∧
          (again.SameUpToOrder value ↔ ¬ value.HasEmptyArray) ∧
          schema.encode name again = .ok written :=
  built.wellFormed.reencode resolved ⟨_, found, nofun⟩ decoded

/-- A run without elements, numbers in more groups than they need, a field that is not declared,
and a tree inside. -/
def paddedBytes : List UInt8 :=
  [10, 0, 0x98, 0, 0x80, 0, 72, 5, 18, 2, 8, 5]

def paddedTree : Value :=
  .object "Tree"
    [("rings", .array []),
     ("color", .enum "Color" "GREEN"),
     ("crown", .object "Tree" [("rings", .array [.int32 (-3)])])]

theorem reencode_of_decode_tree :
    treeSchema.decode "Tree" paddedBytes = .ok (paddedTree, 12) ∧
    treeSchema.encode "Tree" paddedTree = .ok [18, 2, 8, 5, 24, 0] ∧
    ∃ again, treeSchema.decode "Tree" [18, 2, 8, 5, 24, 0] = .ok (again, 6) ∧
      again.SameUpToOrder (.object "Tree"
        [("color", .enum "Color" "GREEN"),
         ("crown", .object "Tree" [("rings", .array [.int32 (-3)])])]) ∧
      treeSchema.encode "Tree" again = .ok [18, 2, 8, 5, 24, 0] := by
  have decoded : treeSchema.decode "Tree" paddedBytes = .ok (paddedTree, 12) := rfl
  have encoded : treeSchema.encode "Tree" paddedTree = .ok [18, 2, 8, 5, 24, 0] :=
    eq_ok_of_toOption (by decide +kernel)
  obtain ⟨-, -, second⟩ := built_treeSchema.reencode_of_decode rfl rfl decoded
  obtain ⟨again, returned, same, -, stable⟩ := second _ encoded (by decide)
  exact ⟨decoded, encoded, again, returned, same, stable⟩

/-! ### Frames -/

/-- Frames that are registered for a message delimit themselves, with every length type and every
fixed length that is accepted. -/
theorem Built.delimitsItself_of_registerFramed
    (built : Built schema)
    {name inner : String}
    {lengthType : Option String}
    {length : Option Nat}
    {extended : Schema}
    (registered : schema.registerFramed name inner lengthType length = .ok extended) :
    ∃ index, extended.resolve name = .ok (.definition index) ∧
      extended.DelimitsItself name inner (.definition index) := by
  have wellFormed := built.wellFormed.registerFramed registered
  obtain ⟨index, framing, message, -, found, added⟩ := Schema.registerFramed_eq_ok registered
  obtain ⟨-, -, rfl⟩ := Schema.register_eq_ok.mp added
  have last : (Schema.mk (schema.definitions ++ [⟨name, .framed ⟨index, framing⟩⟩])).definition?
      schema.definitions.length = some ⟨name, .framed ⟨index, framing⟩⟩ :=
    List.getElem?_concat_length
  have innerFound := Schema.definition?_append found [⟨name, .framed ⟨index, framing⟩⟩]
  exact ⟨_, wellFormed.resolve_of_definition? last, wellFormed.delimitsItself last innerFound⟩

/-- Two trees in frames and a byte behind them are read in turn, and the first frame is refused
without its last byte. -/
theorem delimitsItself_forest :
    (∃ results,
      (forestSchema.read (.definition 2)).inTurn 2
          (Cursor.ofBytes ([6, 8, 5, 18, 0, 24, 0] ++ [2, 8, 5] ++ [170])) =
          .ok results ⟨10, [170]⟩ ∧
        results.map Prod.fst =
          [.object "Tree"
            [("rings", .array [.int32 (-3)]),
             ("crown", .object "Tree" []),
             ("color", .enum "Color" "GREEN")],
           .object "Tree" [("rings", .array [.int32 (-3)])]] ∧
        (results.map Prod.snd)[0]? = some 7 ∧ (results.map Prod.snd)[1]? = some 10) ∧
    ∃ cause, forestSchema.decode "Frame" [6, 8, 5, 18, 0, 24] = .error cause := by
  have registered :
      treeSchema.registerFramed "Frame" "Tree" (some "uint32") none = .ok forestSchema := rfl
  obtain ⟨index, resolved, delimits⟩ :=
    built_treeSchema.delimitsItself_of_registerFramed registered
  obtain rfl : 2 = index := TypeRef.definition.inj (Except.ok.inj resolved)
  have noisy : forestSchema.Writes "Frame" (.definition 2) noisyTree [6, 8, 5, 18, 0, 24, 0] :=
    ⟨eq_ok_of_toOption (by decide +kernel), by decide, by decide +kernel⟩
  have plain : forestSchema.Writes "Frame" (.definition 2)
      (.object "Tree" [("rings", .array [.int32 (-3)])]) [2, 8, 5] :=
    ⟨eq_ok_of_toOption (by decide +kernel), by decide, by decide +kernel⟩
  constructor
  · obtain ⟨results, returned, values, positions⟩ :=
      delimits.stream _ _ [170] (.cons noisy (.cons plain .nil))
    exact ⟨results, returned, values, positions 0 (by decide), positions 1 (by decide)⟩
  · exact delimits.cut _ _ _ noisy.encoded ⟨[0], rfl⟩ (by decide)

/-! ### Nesting -/

/-- The limit on nested messages is exact. A decoded value has at most `maxDepth` objects below the
root on every way. What was encoded is refused, because of the limit, exactly if the value has more
of them in its declared fields: those of its canonical form, or, if no object holds a name twice,
those that are left without the fields that are not declared. Lengths on the wire are words of 64
bits. -/
theorem Built.nesting_limit
    (built : Built schema)
    {name : String}
    {type : TypeRef}
    (resolved : schema.resolve name = .ok type) :
    (∀ bytes value consumed, schema.decode name bytes = .ok (value, consumed) →
        value.nesting ≤ maxDepth + 1) ∧
      ∀ value bytes, schema.encode name value = .ok bytes → bytes.length < UInt64.size →
        ((∃ cause, schema.decode name bytes = .error cause) ↔
            maxDepth + 1 < (schema.canonical type value).nesting) ∧
          (value.HasDistinctNames →
            ((∃ cause, schema.decode name bytes = .error cause) ↔
              maxDepth + 1 < (schema.restrict type value).nesting)) ∧
          ∀ cause, schema.decode name bytes = .error cause →
            cause = .recursionLimitExceeded maxDepth := by
  constructor
  · intro bytes value consumed decoded
    exact Schema.nesting_le_of_admits (built.wellFormed.admits_of_decode resolved decoded)
  · intro value bytes encoded fits
    have refused {cause : WireError} :
        schema.decode name bytes = .error cause ↔ _ ∧ cause = .recursionLimitExceeded maxDepth :=
      built.wellFormed.decode_encode_eq_error resolved encoded fits
    have boundary : (∃ cause, schema.decode name bytes = .error cause) ↔
        maxDepth + 1 < (schema.canonical type value).nesting := by
      constructor
      · rintro ⟨cause, failed⟩
        exact (refused.mp failed).1
      · intro deep
        exact ⟨_, refused.mpr ⟨deep, rfl⟩⟩
    refine ⟨boundary, fun distinct => ?_, fun cause failed => (refused.mp failed).2⟩
    rw [← schema.nesting_canonical type value distinct]
    exact boundary

/-- A tree with some crowns inside of each other. -/
def crowned : Nat → Value
  | 0 => .object "Tree" []
  | count + 1 => .object "Tree" [("crown", crowned count)]

theorem hasDistinctNames_crowned (count : Nat) : (crowned count).HasDistinctNames := by
  induction count with
  | zero =>
      intro typeName fields inside
      rcases Value.mem_parts_object.mp inside with same | ⟨entry, none, -⟩
      · cases same
        exact List.nodup_nil
      · cases none
  | succ count inductionHypothesis =>
      intro typeName fields inside
      rcases Value.mem_parts_object.mp inside with same | ⟨entry, member, deeper⟩
      · cases same
        exact List.pairwise_singleton _ _
      · obtain rfl := List.mem_singleton.mp member
        exact inductionHypothesis typeName fields deeper

/-- With a hundred crowns inside of each other a tree is decoded again, and with one more crown it
is not. -/
theorem nesting_limit_crowned :
    (∃ bytes, treeSchema.encode "Tree" (crowned 100) = .ok bytes ∧
      ∃ value consumed, treeSchema.decode "Tree" bytes = .ok (value, consumed) ∧
        value.nesting ≤ 101) ∧
    ∃ bytes, treeSchema.encode "Tree" (crowned 101) = .ok bytes ∧
      treeSchema.decode "Tree" bytes = .error (.recursionLimitExceeded 100) := by
  have resolved : treeSchema.resolve "Tree" = .ok (.definition 0) := rfl
  obtain ⟨shallow, limit⟩ := built_treeSchema.nesting_limit resolved
  have encoded {count size : Nat}
      (written : (treeSchema.encode "Tree" (crowned count)).toOption.map List.length = some size) :
      ∃ bytes, treeSchema.encode "Tree" (crowned count) = .ok bytes ∧ bytes.length = size := by
    obtain ⟨bytes, written, length⟩ := Option.map_eq_some_iff.mp written
    exact ⟨bytes, eq_ok_of_toOption written, length⟩
  constructor
  · have size : (treeSchema.encode "Tree" (crowned 100)).toOption.map List.length = some 236 := by
      decide +kernel
    obtain ⟨bytes, written, length⟩ := encoded size
    obtain ⟨-, boundary, -⟩ := limit _ bytes written (by rw [length]; decide)
    cases decoded : treeSchema.decode "Tree" bytes with
    | error cause =>
        have deep := (boundary (hasDistinctNames_crowned 100)).mp ⟨cause, decoded⟩
        exact absurd deep (by decide +kernel)
    | ok result =>
        obtain ⟨value, consumed⟩ := result
        exact ⟨bytes, written, value, consumed, decoded, shallow bytes value consumed decoded⟩
  · have size : (treeSchema.encode "Tree" (crowned 101)).toOption.map List.length = some 239 := by
      decide +kernel
    obtain ⟨bytes, written, length⟩ := encoded size
    obtain ⟨-, boundary, cause⟩ := limit _ bytes written (by rw [length]; decide)
    obtain ⟨other, failed⟩ := (boundary (hasDistinctNames_crowned 101)).mpr (by decide +kernel)
    rw [cause other failed] at failed
    exact ⟨bytes, written, failed⟩

end ProtoWire.Proto
