import ProtoWire.Codec.Scalar
import ProtoWire.Proofs.Wire.Reading
import ProtoWire.Wire.Key

/-!
Contract: readers that take the same bytes as others wherever these succeed, and readers that take
what passing over a payload takes.

Owns:
- the relation between two readers, and its laws for sequences, regions and repetition;
- the readers that take exactly one payload of a wire type.

Does not own: what is read from the payloads.
-/

namespace ProtoWire

namespace Reader

variable {α β γ δ : Type}

/-- Wherever the first reader succeeds, the second takes the same bytes, and returns the image of
what the first returns. -/
def Follows (second : Reader β) (f : α → β) (first : Reader α) : Prop :=
  ∀ cursor value after, first cursor = .ok value after → second cursor = .ok (f value) after

theorem follows_throw (second : Reader β) (f : α → β) (cause : WireError) :
    second.Follows f (throw cause) :=
  fun _ _ _ returned => nomatch returned

theorem follows_pure {f : α → β} {value : α} {result : β} (same : f value = result) :
    (pure result : Reader β).Follows f (pure value) := by
  rintro cursor _ after ⟨⟩
  rw [same]
  rfl

theorem follows_map (f : α → β) (reader : Reader α) : (f <$> reader).Follows f reader :=
  fun _ _ _ returned => map_of_ok returned

/-- A reader follows itself if its values are their own images. -/
theorem follows_self
    {reader : Reader α}
    {f : α → α}
    (yields : reader.Yields fun value => f value = value) :
    reader.Follows f reader := by
  intro cursor value after returned
  rw [yields cursor value after returned]
  exact returned

/-- Only the images of the values that are returned matter. -/
theorem Follows.congr
    {first : Reader α}
    {second : Reader β}
    {f g : α → β}
    (follows : second.Follows f first)
    (yields : first.Yields fun value => f value = g value) :
    second.Follows g first := by
  intro cursor value after returned
  rw [← yields cursor value after returned]
  exact follows cursor value after returned

theorem Follows.bind
    {first : Reader α}
    {second : Reader β}
    {f : α → β}
    {nextFirst : α → Reader γ}
    {nextSecond : β → Reader δ}
    {g : γ → δ}
    (follows : second.Follows f first)
    (next : ∀ value, (nextSecond (f value)).Follows g (nextFirst value)) :
    (second >>= nextSecond).Follows g (first >>= nextFirst) := by
  intro cursor result after returned
  obtain ⟨value, middle, firstOk, nextOk⟩ := bind_eq_ok.mp returned
  rw [bind_of_ok (follows cursor value middle firstOk)]
  exact next value middle result after nextOk

/-- Readers that start alike differ in what comes next only. -/
theorem follows_bind
    {first : Reader α}
    {nextFirst : α → Reader γ}
    {nextSecond : α → Reader δ}
    {g : γ → δ}
    (next : ∀ value, (nextSecond value).Follows g (nextFirst value)) :
    (first >>= nextSecond).Follows g (first >>= nextFirst) :=
  (follows_self (f := id) fun _ _ _ _ => rfl).bind next

theorem Follows.within
    {first : Reader α}
    {second : Reader β}
    {f : α → β}
    (follows : second.Follows f first)
    (region : List UInt8) :
    (within region second).Follows f (within region first) := by
  intro cursor value after returned
  obtain ⟨⟨stopped, inside⟩, rfl⟩ := within_eq_ok.mp returned
  exact within_eq_ok.mpr ⟨⟨stopped, follows _ value stopped inside⟩, rfl⟩

private theorem follows_repeatAtMost
    {first : Reader α}
    {second : Reader β}
    {f : α → β}
    (follows : second.Follows f first)
    (count : Nat) :
    (repeatAtMost second count).Follows (List.map f) (repeatAtMost first count) := by
  induction count with
  | zero => exact follows_pure rfl
  | succ count inductionHypothesis =>
      intro cursor values after returned
      unfold repeatAtMost at returned ⊢
      split at returned
      · rename_i atEnd
        cases returned
        rw [if_pos atEnd]
        rfl
      · rename_i more
        rw [if_neg more]
        refine (follows.bind fun value => ?_) cursor values after returned
        exact inductionHypothesis.bind fun others => follows_pure rfl

theorem Follows.many
    {first : Reader α}
    {second : Reader β}
    {f : α → β}
    (follows : second.Follows f first) :
    (many second).Follows (List.map f) (many first) :=
  fun cursor values after returned =>
    follows_repeatAtMost follows cursor.remaining cursor values after returned

/-! ### Payloads -/

/-- Wherever a reader succeeds, it takes what passing over a payload of the wire type takes. -/
def Takes (reader : Reader α) (wireType : WireType) : Prop :=
  (skip wireType).Follows (fun _ => ()) reader

theorem Takes.bind_pure
    {reader : Reader α}
    {wireType : WireType}
    (takes : reader.Takes wireType)
    (f : α → β) :
    (reader >>= fun value => pure (f value)).Takes wireType := by
  intro cursor result after returned
  obtain ⟨value, middle, valueOk, ⟨⟩⟩ := bind_eq_ok.mp returned
  exact takes cursor value after valueOk

theorem Takes.map
    {reader : Reader α}
    {wireType : WireType}
    (takes : reader.Takes wireType)
    (f : α → β) :
    (f <$> reader).Takes wireType := by
  intro cursor result after returned
  obtain ⟨value, valueOk, -⟩ := map_eq_ok.mp returned
  exact takes cursor value after valueOk

theorem takes_varint : varint.Takes .varint :=
  follows_map _ varint

theorem takes_fixed32 : fixed32.Takes .fixed32 := by
  have takes : (bytes 4).Takes .fixed32 := follows_map _ (bytes 4)
  exact takes.map _

theorem takes_fixed64 : fixed64.Takes .fixed64 := by
  have takes : (bytes 8).Takes .fixed64 := follows_map _ (bytes 8)
  exact takes.map _

/-- Passing over a payload follows a reader whose values have one image. -/
theorem Takes.follows_skip
    {reader : Reader α}
    {wireType : WireType}
    (takes : reader.Takes wireType)
    {f : α → β}
    {result : β}
    (yields : reader.Yields fun value => f value = result) :
    (do skip wireType; pure result).Follows f reader := by
  intro cursor value after returned
  rw [yields cursor value after returned, bind_of_ok (takes cursor value after returned)]
  rfl

/-- Whatever is read from the bytes behind a length, the length decides what is taken. -/
theorem takes_lengthDelimited (reader : Reader α) (f : α → β) :
    (do
      let payload ← lengthDelimited
      let value ← within payload reader
      pure (f value)).Takes .lengthDelimited := by
  intro cursor result after returned
  obtain ⟨payload, middle, payloadOk, rest⟩ := bind_eq_ok.mp returned
  obtain ⟨value, last, inside, ⟨⟩⟩ := bind_eq_ok.mp rest
  obtain ⟨-, rfl⟩ := within_eq_ok.mp inside
  exact map_of_ok payloadOk

end Reader

/-- A scalar that delimits itself takes one payload of its wire type. -/
theorem Scalar.takes_read {type : Scalar} (bare : type.wireType ≠ .lengthDelimited) :
    type.read.Takes type.wireType := by
  cases type with
  | string => exact absurd rfl bare
  | bytes => exact absurd rfl bare
  | fixed32 | float => exact Reader.takes_fixed32.map _
  | sfixed32 => exact (Reader.takes_fixed32.map _).map _
  | fixed64 | double => exact Reader.takes_fixed64.map _
  | sfixed64 => exact (Reader.takes_fixed64.map _).map _
  | uint64 => exact Reader.takes_varint.map _
  | _ => exact (Reader.takes_varint.map _).map _

end ProtoWire
