import ProtoWire.Proofs.Wire.Locality

/-!
Contract: how far a reader moves. Whether it succeeds or fails, it stops inside of the bytes that
it was given, and what it returns comes from the bytes that it has passed.

Owns:
- the place at which a reader stops, and readers that stop inside of their bytes;
- readers that return what the bytes behind them say;
- the repetition of a reader that always moves on.

Does not own: fields, messages or frames.
-/

namespace ProtoWire

/-- The cursor some bytes further on. -/
def Cursor.skip (cursor : Cursor) (count : Nat) : Cursor :=
  ⟨cursor.offset + count, cursor.rest.drop count⟩

namespace Cursor

@[simp] theorem skip_zero (cursor : Cursor) : cursor.skip 0 = cursor := rfl

theorem skip_skip (cursor : Cursor) (first second : Nat) :
    (cursor.skip first).skip second = cursor.skip (first + second) := by
  unfold skip
  rw [List.drop_drop, Nat.add_assoc]

theorem remaining_skip (cursor : Cursor) (count : Nat) :
    (cursor.skip count).remaining = cursor.remaining - count :=
  List.length_drop

/-- The cursor at a place of some bytes. -/
def within (bytes : List UInt8) (index : Nat) : Cursor :=
  ⟨index, bytes.drop index⟩

theorem skip_within (bytes : List UInt8) (index count : Nat) :
    (within bytes index).skip count = within bytes (index + count) := by
  unfold skip within
  rw [List.drop_drop]

theorem remaining_within (bytes : List UInt8) (index : Nat) :
    (within bytes index).remaining = bytes.length - index :=
  List.length_drop

end Cursor

namespace Reader

variable {α β : Type}

/-- How a reader ends: with a value or with an error, and in both cases at some place. -/
abbrev Ending (α : Type) : Type :=
  EStateM.Result WireError Cursor α

namespace Ending

/-- Where a reader has stopped. -/
def cursor : Ending α → Cursor
  | .ok _ cursor => cursor
  | .error _ cursor => cursor

/-- The same result at another place. -/
def moveTo (after : Cursor) : Ending α → Ending α
  | .ok value _ => .ok value after
  | .error cause _ => .error cause after

/-- Another value at the same place. -/
def map (f : α → β) : Ending α → Ending β
  | .ok value cursor => .ok (f value) cursor
  | .error cause cursor => .error cause cursor

theorem map_map {γ : Type} (f : α → β) (g : β → γ) (ending : Ending α) :
    map g (map f ending) = map (g ∘ f) ending := by
  cases ending <;> rfl

theorem map_moveTo (f : α → β) (after : Cursor) (ending : Ending α) :
    map f (moveTo after ending) = moveTo after (map f ending) := by
  cases ending <;> rfl

end Ending

theorem map_eq (f : α → β) (reader : Reader α) (cursor : Cursor) :
    (f <$> reader) cursor = Ending.map f (reader cursor) := by
  change EStateM.map f reader cursor = _
  unfold EStateM.map Ending.map
  cases reader cursor <;> rfl

theorem within_eq (region : List UInt8) (reader : Reader α) (cursor : Cursor) :
    within region reader cursor = Ending.moveTo cursor (reader (Cursor.ofBytes region)) := by
  unfold within Ending.moveTo
  cases reader (Cursor.ofBytes region) <;> rfl

theorem bind_of_error
    {first : Reader α}
    {next : α → Reader β}
    {cause : WireError}
    {cursor after : Cursor}
    (failed : first cursor = .error cause after) :
    (first >>= next) cursor = .error cause after := by
  change EStateM.bind first next cursor = _
  rw [EStateM.bind, failed]

/-! ### Stopping inside -/

/-- Success or failure, a reader stops at or behind its start and not behind the last byte. -/
def StaysInside (reader : Reader α) : Prop :=
  ∀ cursor, ∃ count ≤ cursor.remaining, Ending.cursor (reader cursor) = cursor.skip count

theorem staysInside_pure (value : α) : (pure value : Reader α).StaysInside :=
  fun _ => ⟨0, Nat.zero_le _, rfl⟩

theorem staysInside_throw (cause : WireError) : (throw cause : Reader α).StaysInside :=
  fun _ => ⟨0, Nat.zero_le _, rfl⟩

theorem staysInside_get : (get : Reader Cursor).StaysInside :=
  fun _ => ⟨0, Nat.zero_le _, rfl⟩

theorem StaysInside.bind
    {first : Reader α}
    {next : α → Reader β}
    (inside : first.StaysInside)
    (nextInside : ∀ value, (next value).StaysInside) :
    (first >>= next).StaysInside := by
  intro cursor
  obtain ⟨count, enough, stopped⟩ := inside cursor
  cases outcome : first cursor with
  | error cause after =>
      rw [outcome] at stopped
      exact ⟨count, enough, by rw [bind_of_error outcome]; exact stopped⟩
  | ok value middle =>
      rw [outcome] at stopped
      obtain rfl : middle = cursor.skip count := stopped
      obtain ⟨more, moreEnough, moreStopped⟩ := nextInside value (cursor.skip count)
      rw [Cursor.remaining_skip] at moreEnough
      refine ⟨count + more, by omega, ?_⟩
      rw [bind_of_ok outcome, moreStopped, Cursor.skip_skip]

theorem StaysInside.map
    {reader : Reader α}
    (inside : reader.StaysInside)
    (f : α → β) :
    (f <$> reader).StaysInside := by
  intro cursor
  obtain ⟨count, enough, stopped⟩ := inside cursor
  refine ⟨count, enough, ?_⟩
  rw [map_eq, ← stopped]
  cases reader cursor <;> rfl

theorem keptBySequences_staysInside : KeptBySequences StaysInside where
  returning := staysInside_pure
  failing := staysInside_throw
  sequence := StaysInside.bind

theorem staysInside_within (region : List UInt8) (reader : Reader α) :
    (within region reader).StaysInside := by
  intro cursor
  refine ⟨0, Nat.zero_le _, ?_⟩
  rw [within_eq]
  cases reader (Cursor.ofBytes region) <;> rfl

private theorem staysInside_repeatAtMost
    {reader : Reader α}
    (inside : reader.StaysInside)
    (count : Nat) :
    (repeatAtMost reader count).StaysInside := by
  induction count with
  | zero => exact staysInside_pure []
  | succ count inductionHypothesis =>
      intro cursor
      unfold repeatAtMost
      split
      · exact ⟨0, Nat.zero_le _, rfl⟩
      · exact inside.bind (fun first => inductionHypothesis.bind fun others =>
          staysInside_pure (first :: others)) cursor

theorem StaysInside.many {reader : Reader α} (inside : reader.StaysInside) :
    (many reader).StaysInside :=
  fun cursor => staysInside_repeatAtMost inside cursor.remaining cursor

/-! ### Own bytes -/

/-- What a reader returns is what it returns from the bytes that it has passed, on their own. -/
def IsExact (reader : Reader α) : Prop :=
  ∀ cursor value after, reader cursor = .ok value after →
    ∃ taken, cursor.rest = taken ++ after.rest ∧ reader.Exhausts taken value

/-- A reader that succeeds takes all bytes that are left, alike at every position. -/
def TakesAll (reader : Reader α) : Prop :=
  ∀ cursor value after, reader cursor = .ok value after →
    after.rest = [] ∧ reader.Exhausts cursor.rest value

theorem IsLocal.isExact {reader : Reader α} (isLocal : reader.IsLocal) : reader.IsExact := by
  intro cursor value after returned
  obtain ⟨taken, start, reads⟩ := isLocal cursor value after returned
  exact ⟨taken, start, reads.exhausts⟩

theorem TakesAll.isExact {reader : Reader α} (takesAll : reader.TakesAll) : reader.IsExact := by
  intro cursor value after returned
  obtain ⟨nothing, exhausts⟩ := takesAll cursor value after returned
  exact ⟨cursor.rest, by rw [nothing, List.append_nil], exhausts⟩

theorem TakesAll.map
    {reader : Reader α}
    (takesAll : reader.TakesAll)
    (f : α → β) :
    (f <$> reader).TakesAll := by
  intro cursor result after returned
  obtain ⟨value, valueOk, rfl⟩ := map_eq_ok.mp returned
  obtain ⟨nothing, exhausts⟩ := takesAll cursor value after valueOk
  exact ⟨nothing, exhausts.map f⟩

theorem takesAll_rest : rest.TakesAll := by
  rintro cursor _ _ ⟨⟩
  exact ⟨rfl, fun _ => rfl⟩

theorem takesAll_restAsText : restAsText.TakesAll := by
  intro cursor text after returned
  obtain ⟨run, middle, ⟨⟩, decoded⟩ := bind_eq_ok.mp returned
  unfold restAsText
  cases valid : decodeText? cursor.rest with
  | none =>
      rw [valid] at decoded
      cases decoded
  | some content =>
      rw [valid] at decoded
      cases decoded
      refine ⟨rfl, fun offset => ?_⟩
      have all : rest ⟨offset, cursor.rest⟩ =
          .ok cursor.rest ⟨offset + cursor.rest.length, []⟩ := rfl
      rw [bind_of_ok all, valid]
      rfl

/-- Repeated up to the end, a local reader that always moves on takes all bytes. -/
theorem IsLocal.takesAll_many
    {reader : Reader α}
    (isLocal : reader.IsLocal)
    (needs : reader.NeedsBytes) :
    (many reader).TakesAll := by
  intro cursor values after returned
  obtain ⟨pieces, rfl⟩ := (many_eq_ok isLocal needs).mp returned
  exact ⟨rfl, pieces.many_exhausts⟩

/-! ### Moving on -/

/-- A local reader that refuses the end of the bytes moves on whenever it succeeds. -/
theorem IsLocal.remaining_lt
    {reader : Reader α}
    (isLocal : reader.IsLocal)
    (needs : reader.NeedsBytes)
    {cursor after : Cursor}
    {value : α}
    (returned : reader cursor = .ok value after) :
    after.remaining < cursor.remaining := by
  obtain ⟨taken, start, reads⟩ := isLocal cursor value after returned
  have positive : 0 < taken.length := List.length_pos_iff.mpr (reads.ne_nil needs)
  rw [Cursor.remaining, Cursor.remaining, start, List.length_append]
  omega

private theorem repeatAtMost_induction
    {reader : Reader α}
    (isLocal : reader.IsLocal)
    (needs : reader.NeedsBytes)
    {motive : Cursor → Ending (List α) → Prop}
    (finished : ∀ cursor, cursor.rest = [] → motive cursor (.ok [] cursor))
    (refused : ∀ cursor cause after, cursor.rest ≠ [] → reader cursor = .error cause after →
      motive cursor (.error cause after))
    (more : ∀ cursor value middle ending, cursor.rest ≠ [] → reader cursor = .ok value middle →
      motive middle ending → motive cursor (Ending.map (value :: ·) ending))
    {count : Nat}
    {cursor : Cursor}
    (enough : cursor.remaining ≤ count) :
    motive cursor (repeatAtMost reader count cursor) := by
  induction count generalizing cursor with
  | zero => exact finished cursor (List.eq_nil_of_length_eq_zero (Nat.le_zero.mp enough))
  | succ count inductionHypothesis =>
      unfold repeatAtMost
      split
      · rename_i atEnd
        exact finished cursor (List.isEmpty_iff.mp atEnd)
      · rename_i left
        have nonempty : cursor.rest ≠ [] := fun nothing => left (List.isEmpty_iff.mpr nothing)
        cases outcome : reader cursor with
        | error cause after =>
            rw [bind_of_error outcome]
            exact refused cursor cause after nonempty outcome
        | ok value middle =>
            have fewer : middle.remaining ≤ count := by
              have moved := isLocal.remaining_lt needs outcome
              omega
            rw [bind_of_ok outcome]
            change motive cursor ((((value :: ·) <$> repeatAtMost reader count) : Reader _) middle)
            rw [map_eq]
            exact more cursor value middle _ nonempty outcome (inductionHypothesis fewer)

/-- The repetition of a reader that always moves on ends at the end of the bytes or with the first
error, and not because of a count. -/
theorem many_induction
    {reader : Reader α}
    (isLocal : reader.IsLocal)
    (needs : reader.NeedsBytes)
    {motive : Cursor → Ending (List α) → Prop}
    (finished : ∀ cursor, cursor.rest = [] → motive cursor (.ok [] cursor))
    (refused : ∀ cursor cause after, cursor.rest ≠ [] → reader cursor = .error cause after →
      motive cursor (.error cause after))
    (more : ∀ cursor value middle ending, cursor.rest ≠ [] → reader cursor = .ok value middle →
      motive middle ending → motive cursor (Ending.map (value :: ·) ending))
    (cursor : Cursor) :
    motive cursor (many reader cursor) :=
  repeatAtMost_induction isLocal needs finished refused more (Nat.le_refl cursor.remaining)

theorem NeedsBytes.map
    {reader : Reader α}
    (needs : reader.NeedsBytes)
    (f : α → β) :
    (f <$> reader).NeedsBytes := by
  intro offset result after returned
  obtain ⟨value, valueOk, -⟩ := map_eq_ok.mp returned
  exact needs offset value after valueOk

theorem needsBytes_throw (cause : WireError) : (throw cause : Reader α).NeedsBytes :=
  fun _ _ _ returned => nomatch returned

/-- Some bytes are taken if they are there. -/
theorem bytes_eq_ok {count : Nat} {cursor after : Cursor} {run : List UInt8} :
    bytes count cursor = .ok run after ↔
      count ≤ cursor.remaining ∧ run = cursor.rest.take count ∧ after = cursor.skip count := by
  unfold bytes
  split
  · rename_i enough
    have inside := (Cursor.has_iff cursor count).mp enough
    constructor
    · rintro ⟨⟩
      exact ⟨inside, rfl, rfl⟩
    · rintro ⟨-, rfl, rfl⟩
      rfl
  · rename_i short
    constructor
    · rintro ⟨⟩
    · rintro ⟨inside, -⟩
      exact absurd ((Cursor.has_iff cursor count).mpr inside) short

theorem needsBytes_bytes {count : Nat} (positive : 0 < count) : (bytes count).NeedsBytes := by
  intro offset run after returned
  have enough := (bytes_eq_ok.mp returned).1
  exact absurd positive (Nat.not_lt.mpr enough)

/-! ### Numbers and runs -/

theorem staysInside_byte : byte.StaysInside := by
  rintro ⟨offset, rest⟩
  cases rest with
  | nil => exact ⟨0, Nat.zero_le _, rfl⟩
  | cons first others => exact ⟨1, Nat.succ_le_succ (Nat.zero_le _), rfl⟩

theorem staysInside_bytes (count : Nat) : (bytes count).StaysInside := by
  intro cursor
  unfold bytes
  split
  · rename_i enough
    exact ⟨count, (Cursor.has_iff cursor count).mp enough, rfl⟩
  · exact ⟨0, Nat.zero_le _, rfl⟩

theorem staysInside_rest : rest.StaysInside := by
  intro cursor
  refine ⟨cursor.remaining, Nat.le_refl _, ?_⟩
  change Cursor.mk _ [] = Cursor.mk _ _
  rw [Cursor.remaining, List.drop_length]

theorem staysInside_varint : varint.StaysInside :=
  fun cursor => keptBySequences_staysInside.varintGroups staysInside_byte cursor.offset
    Varint.maxGroups cursor

theorem keptByReaders_staysInside : KeptByReaders StaysInside where
  toKeptBySequences := keptBySequences_staysInside
  varint := staysInside_varint
  bytes := staysInside_bytes
  within := staysInside_within

theorem staysInside_restAsText : restAsText.StaysInside := by
  apply staysInside_rest.bind
  intro run
  cases decodeText? run with
  | none => exact staysInside_throw _
  | some text => exact staysInside_pure text

end Reader

theorem Scalar.staysInside_read (type : Scalar) : type.read.StaysInside := by
  cases type with
  | string => exact Reader.staysInside_restAsText.map _
  | bytes => exact Reader.staysInside_rest.map _
  | _ => exact Reader.keptByReaders_staysInside.scalar (by decide)

/-- A scalar that delimits itself takes at least one byte. -/
theorem Scalar.needsBytes_read {type : Scalar} (bare : type.wireType ≠ .lengthDelimited) :
    type.read.NeedsBytes := by
  have word : Reader.varint.NeedsBytes := Reader.needsBytes_varint
  have narrow : (Reader.bytes 4).NeedsBytes := Reader.needsBytes_bytes (by decide)
  have wide : (Reader.bytes 8).NeedsBytes := Reader.needsBytes_bytes (by decide)
  cases type with
  | string => exact absurd rfl bare
  | bytes => exact absurd rfl bare
  | fixed32 | float => exact (narrow.map _).map _
  | sfixed32 => exact ((narrow.map _).map _).map _
  | fixed64 | double => exact (wide.map _).map _
  | sfixed64 => exact ((wide.map _).map _).map _
  | uint64 => exact word.map _
  | _ => exact (word.map _).map _

end ProtoWire
