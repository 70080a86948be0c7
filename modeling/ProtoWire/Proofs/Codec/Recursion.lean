import ProtoWire.Codec.Encode
import ProtoWire.Proofs.Outcome

/-!
Contract: sizes and emissions as recursions over values. The bound on the height of a value,
which makes the definitions end, never decides an outcome.

Owns:
- the equations of sizes and emissions, one for each way in which a field occurs;
- the recursive equations of sizes and emissions;
- the values that a message writes for a field, which are lower than the message.

Does not own: what sizes and emissions have to do with each other.
-/

namespace ProtoWire

open Outcome

namespace Value

theorem height_le_of_mem_elements {elements : List Value} {element : Value}
    (member : element ∈ elements) :
    element.height ≤ heightOfElements elements := by
  induction elements with
  | nil => cases member
  | cons first others inductionHypothesis =>
      rw [heightOfElements]
      rcases List.mem_cons.mp member with rfl | later
      · exact Nat.le_max_left ..
      · exact Nat.le_trans (inductionHypothesis later) (Nat.le_max_right ..)

theorem height_le_of_get? {fields : FieldMap Value} {name : String} {content : Value}
    (found : FieldMap.get? fields name = some content) :
    content.height ≤ heightOfFields fields := by
  induction fields with
  | nil => cases found
  | cons entry others inductionHypothesis =>
      obtain ⟨key, first⟩ := entry
      rw [heightOfFields]
      simp only [FieldMap.get?] at found
      split at found
      · obtain rfl : first = content := Option.some.inj found
        exact Nat.le_max_left ..
      · exact Nat.le_trans (inductionHypothesis found) (Nat.le_max_right ..)

end Value

/-- The values that are written for a field. -/
def Occurrence.values : Occurrence → List Value
  | .nothing => []
  | .records values => values
  | .run values => values

namespace Schema

variable {schema : Schema}

/-- What is written for a field comes out of the fields of the message. -/
theorem occurrence_values_height
    {messageName : String}
    {fields : FieldMap Value}
    {field : Field}
    {occurrence : Occurrence}
    (occurs : schema.occurrence messageName fields field = .ok occurrence) :
    ∀ value ∈ occurrence.values, value.height ≤ Value.heightOfFields fields := by
  intro value member
  unfold Schema.occurrence at occurs
  split at occurs
  · split at occurs
    · cases occurs
    · obtain rfl : .nothing = occurrence := Except.ok.inj occurs
      cases member
  · rename_i content found
    have bound := Value.height_le_of_get? found
    split at occurs
    · split at occurs
      · cases occurs
        cases member
      · rename_i elements _
        have elementBound (inside : value ∈ elements) :
            value.height ≤ Value.heightOfFields fields := by
          have below := Value.height_le_of_mem_elements inside
          simp only [Value.height] at bound
          omega
        split at occurs <;> cases occurs <;> exact elementBound member
      · cases occurs
    · cases occurs
      obtain rfl : value = content := List.mem_singleton.mp member
      exact bound

/-! ### Equations -/

section Equations

variable
  {valueSize : TypeRef → Value → Except WireError Nat}
  {emitValue : TypeRef → Value → Emission}
  {messageName : String}
  {fields : FieldMap Value}
  {field : Field}

theorem fieldSize_of_error
    {cause : WireError}
    (occurs : schema.occurrence messageName fields field = .error cause) :
    schema.fieldSize valueSize messageName fields field = .error cause := by
  unfold fieldSize
  rw [occurs]
  rfl

theorem fieldSize_of_nothing
    (occurs : schema.occurrence messageName fields field = .ok .nothing) :
    schema.fieldSize valueSize messageName fields field = .ok 0 := by
  unfold fieldSize
  rw [occurs]
  rfl

theorem fieldSize_of_records
    {values : List Value}
    (occurs : schema.occurrence messageName fields field = .ok (.records values)) :
    schema.fieldSize valueSize messageName fields field =
      totalSize <$> values.mapM (schema.recordSize valueSize field) := by
  unfold fieldSize
  rw [occurs, ok_bind]
  exact bind_pure_comp totalSize _

/-- The size of a run whose elements take some bytes together. -/
def runSize (tag payload : Nat) : Nat :=
  Key.size tag .lengthDelimited + Varint.size payload + payload

theorem fieldSize_of_run
    {values : List Value}
    (occurs : schema.occurrence messageName fields field = .ok (.run values)) :
    schema.fieldSize valueSize messageName fields field =
      (fun sizes => runSize field.tag (totalSize sizes)) <$>
        values.mapM (valueSize field.type) := by
  unfold fieldSize
  rw [occurs, ok_bind]
  exact bind_pure_comp (fun sizes => runSize field.tag (totalSize sizes)) _

theorem emitField_of_error
    {cause : WireError}
    (occurs : schema.occurrence messageName fields field = .error cause) :
    schema.emitField valueSize emitValue messageName fields field = .fail cause := by
  unfold emitField
  rw [occurs]

theorem emitField_of_nothing
    (occurs : schema.occurrence messageName fields field = .ok .nothing) :
    schema.emitField valueSize emitValue messageName fields field = .empty := by
  unfold emitField
  rw [occurs]

theorem emitField_of_records
    {values : List Value}
    (occurs : schema.occurrence messageName fields field = .ok (.records values)) :
    schema.emitField valueSize emitValue messageName fields field =
      .concat (values.map (schema.emitRecord valueSize emitValue field)) := by
  unfold emitField
  rw [occurs]

theorem emitField_of_run
    {values : List Value}
    (occurs : schema.occurrence messageName fields field = .ok (.run values)) :
    schema.emitField valueSize emitValue messageName fields field =
      Emission.ofBytes (Key.encode field.tag .lengthDelimited) ++
        emitLength (totalSize <$> values.mapM (valueSize field.type)) ++
        .concat (values.map (emitValue field.type)) := by
  unfold emitField
  rw [occurs]

theorem coreSize_object
    {name typeName : String}
    {type : MessageType} :
    schema.coreSize valueSize (.message name type) (.object typeName fields) =
      totalSize <$> type.fields.mapM (schema.fieldSize valueSize name fields) := by
  exact bind_pure_comp totalSize _

theorem layersSize_eq (type : TypeRef) (value : Value) :
    schema.layersSize valueSize type value =
      framesSize (schema.coreSize valueSize (schema.layers type).core value)
        (schema.layers type).frames := rfl

theorem emitLayers_eq (type : TypeRef) (value : Value) :
    schema.emitLayers valueSize emitValue type value =
      emitFrames (schema.coreSize valueSize (schema.layers type).core value)
        (schema.emitCore valueSize emitValue (schema.layers type).core value)
        (schema.layers type).frames := rfl

end Equations

/-! ### Recursion -/

private theorem mapM_congr
    {α β : Type}
    {first second : α → Except WireError β}
    {items : List α}
    (agree : ∀ item ∈ items, first item = second item) :
    items.mapM first = items.mapM second :=
  mapM_of_map (List.map_congr_left agree)

section Congruence

variable
  {firstSize secondSize : TypeRef → Value → Except WireError Nat}
  {firstEmission secondEmission : TypeRef → Value → Emission}

private theorem recordSize_congr
    {field : Field}
    {value : Value}
    (agree : firstSize field.type value = secondSize field.type value) :
    schema.recordSize firstSize field value = schema.recordSize secondSize field value := by
  unfold recordSize
  rw [agree]

private theorem fieldSize_congr
    {messageName : String}
    {fields : FieldMap Value}
    {field : Field}
    (agree : ∀ type content, content.height ≤ Value.heightOfFields fields →
      firstSize type content = secondSize type content) :
    schema.fieldSize firstSize messageName fields field =
      schema.fieldSize secondSize messageName fields field := by
  cases occurs : schema.occurrence messageName fields field with
  | error cause => rw [fieldSize_of_error occurs, fieldSize_of_error occurs]
  | ok occurrence =>
      have lower := occurrence_values_height occurs
      cases occurrence with
      | nothing => rw [fieldSize_of_nothing occurs, fieldSize_of_nothing occurs]
      | records values =>
          rw [fieldSize_of_records occurs, fieldSize_of_records occurs]
          congr 1
          apply mapM_congr
          intro value member
          exact recordSize_congr (agree field.type value (lower value member))
      | run values =>
          rw [fieldSize_of_run occurs, fieldSize_of_run occurs]
          congr 1
          apply mapM_congr
          intro value member
          exact agree field.type value (lower value member)

private theorem coreSize_congr
    {core : Core}
    {value : Value}
    (agree : ∀ type content, content.height < value.height →
      firstSize type content = secondSize type content) :
    schema.coreSize firstSize core value = schema.coreSize secondSize core value := by
  cases core with
  | message name type =>
      cases value with
      | object typeName fields =>
          rw [coreSize_object, coreSize_object]
          congr 1
          apply mapM_congr
          intro field _
          apply fieldSize_congr
          intro fieldType content lower
          apply agree
          simp only [Value.height]
          omega
      | _ => rfl
  | _ => rfl

/-- The size of a value depends on the sizes of lower values only. -/
theorem layersSize_congr
    {type : TypeRef}
    {value : Value}
    (agree : ∀ type content, content.height < value.height →
      firstSize type content = secondSize type content) :
    schema.layersSize firstSize type value = schema.layersSize secondSize type value := by
  rw [layersSize_eq, layersSize_eq, coreSize_congr agree]

private theorem emitField_congr
    {messageName : String}
    {fields : FieldMap Value}
    {field : Field}
    (agreeSize : ∀ type content, content.height ≤ Value.heightOfFields fields →
      firstSize type content = secondSize type content)
    (agreeEmission : ∀ type content, content.height ≤ Value.heightOfFields fields →
      firstEmission type content = secondEmission type content) :
    schema.emitField firstSize firstEmission messageName fields field =
      schema.emitField secondSize secondEmission messageName fields field := by
  cases occurs : schema.occurrence messageName fields field with
  | error cause => rw [emitField_of_error occurs, emitField_of_error occurs]
  | ok occurrence =>
      have lower := occurrence_values_height occurs
      cases occurrence with
      | nothing => rw [emitField_of_nothing occurs, emitField_of_nothing occurs]
      | records values =>
          rw [emitField_of_records occurs, emitField_of_records occurs]
          congr 1
          apply List.map_congr_left
          intro value member
          unfold emitRecord
          rw [agreeSize field.type value (lower value member),
            agreeEmission field.type value (lower value member)]
      | run values =>
          have sizes :
              values.mapM (firstSize field.type) = values.mapM (secondSize field.type) :=
            mapM_congr fun value member => agreeSize field.type value (lower value member)
          have contents :
              values.map (firstEmission field.type) = values.map (secondEmission field.type) :=
            List.map_congr_left fun value member =>
              agreeEmission field.type value (lower value member)
          rw [emitField_of_run occurs, emitField_of_run occurs, sizes, contents]

private theorem emitCore_congr
    {core : Core}
    {value : Value}
    (agreeSize : ∀ type content, content.height < value.height →
      firstSize type content = secondSize type content)
    (agreeEmission : ∀ type content, content.height < value.height →
      firstEmission type content = secondEmission type content) :
    schema.emitCore firstSize firstEmission core value =
      schema.emitCore secondSize secondEmission core value := by
  cases core with
  | message name type =>
      cases value with
      | object typeName fields =>
          have lower (content : Value) (bound : content.height ≤ Value.heightOfFields fields) :
              content.height < (Value.object typeName fields).height := by
            simp only [Value.height]
            omega
          change Emission.concat _ = Emission.concat _
          congr 1
          apply List.map_congr_left
          intro field _
          exact emitField_congr
            (fun fieldType content bound => agreeSize fieldType content (lower content bound))
            (fun fieldType content bound => agreeEmission fieldType content (lower content bound))
      | _ => rfl
  | _ => rfl

/-- What a value writes depends on what lower values write and on their sizes only. -/
theorem emitLayers_congr
    {type : TypeRef}
    {value : Value}
    (agreeSize : ∀ type content, content.height < value.height →
      firstSize type content = secondSize type content)
    (agreeEmission : ∀ type content, content.height < value.height →
      firstEmission type content = secondEmission type content) :
    schema.emitLayers firstSize firstEmission type value =
      schema.emitLayers secondSize secondEmission type value := by
  rw [emitLayers_eq, emitLayers_eq, coreSize_congr agreeSize,
    emitCore_congr agreeSize agreeEmission]

end Congruence

/-- Any bound above the height of a value gives its size. -/
theorem sizeWithin_eq_of_le
    {first second : Nat}
    {type : TypeRef}
    {value : Value}
    (firstBound : value.height ≤ first)
    (secondBound : value.height ≤ second) :
    schema.sizeWithin first type value = schema.sizeWithin second type value := by
  induction first generalizing second type value with
  | zero =>
      cases second with
      | zero => rfl
      | succ second => exact layersSize_congr fun _ _ lower => by omega
  | succ first inductionHypothesis =>
      cases second with
      | zero => exact layersSize_congr fun _ _ lower => by omega
      | succ second =>
          apply layersSize_congr
          intro _ _ lower
          exact inductionHypothesis (by omega) (by omega)

/-- Any bound above the height of a value gives what it writes. -/
theorem emitWithin_eq_of_le
    {first second : Nat}
    {type : TypeRef}
    {value : Value}
    (firstBound : value.height ≤ first)
    (secondBound : value.height ≤ second) :
    schema.emitWithin first type value = schema.emitWithin second type value := by
  induction first generalizing second type value with
  | zero =>
      cases second with
      | zero => rfl
      | succ second =>
          exact emitLayers_congr (fun _ _ lower => by omega) fun _ _ lower => by omega
  | succ first inductionHypothesis =>
      cases second with
      | zero => exact emitLayers_congr (fun _ _ lower => by omega) fun _ _ lower => by omega
      | succ second =>
          apply emitLayers_congr
          · intro _ _ lower
            exact sizeWithin_eq_of_le (by omega) (by omega)
          · intro _ _ lower
            exact inductionHypothesis (by omega) (by omega)

/-- The size of a value from the sizes of the values inside of it. -/
theorem size_eq (schema : Schema) (type : TypeRef) (value : Value) :
    schema.size type value = schema.layersSize schema.size type value := by
  rw [size, sizeWithin_eq_of_le (Nat.le_refl value.height) (Nat.le_succ value.height)]
  apply layersSize_congr
  intro _ content lower
  exact sizeWithin_eq_of_le (Nat.le_of_lt lower) (Nat.le_refl content.height)

/-- What a value writes, from what the values inside of it write. -/
theorem emit_eq (schema : Schema) (type : TypeRef) (value : Value) :
    schema.emit type value = schema.emitLayers schema.size schema.emit type value := by
  rw [emit, emitWithin_eq_of_le (Nat.le_refl value.height) (Nat.le_succ value.height)]
  apply emitLayers_congr
  · intro _ content lower
    exact sizeWithin_eq_of_le (Nat.le_of_lt lower) (Nat.le_refl content.height)
  · intro _ content lower
    exact emitWithin_eq_of_le (Nat.le_of_lt lower) (Nat.le_refl content.height)

end Schema

end ProtoWire
