import ProtoWire.Wire.Key
import ProtoWire.Codec.Scalar

/-!
Contract: readers that take exactly some bytes. What was written is read from its first to its
last byte, whatever follows, so that readers in sequence read what stands in sequence.

Owns:
- the two ways in which a reader takes bytes, and their laws;
- the readers of numbers, runs, keys and regions on the written forms;
- properties of all values that a reader returns.

Does not own: scalars, fields or messages.
-/

namespace ProtoWire

namespace Reader

variable {α β : Type}

/-- A reader takes exactly these bytes, whatever follows them. -/
def Reads (reader : Reader α) (bytes : List UInt8) (value : α) : Prop :=
  ∀ offset rest, reader ⟨offset, bytes ++ rest⟩ = .ok value ⟨offset + bytes.length, rest⟩

/-- A reader takes exactly these bytes if nothing follows them. -/
def Exhausts (reader : Reader α) (bytes : List UInt8) (value : α) : Prop :=
  ∀ offset, reader ⟨offset, bytes⟩ = .ok value ⟨offset + bytes.length, []⟩

theorem Reads.exhausts {reader : Reader α} {bytes : List UInt8} {value : α}
    (reads : reader.Reads bytes value) :
    reader.Exhausts bytes value := by
  intro offset
  have whole := reads offset []
  rwa [List.append_nil] at whole

theorem reads_pure (value : α) : (pure value : Reader α).Reads [] value :=
  fun _ _ => rfl

theorem bind_of_ok
    {first : Reader α}
    {next : α → Reader β}
    {value : α}
    {cursor after : Cursor}
    (done : first cursor = .ok value after) :
    (first >>= next) cursor = next value after := by
  change EStateM.bind first next cursor = _
  rw [EStateM.bind, done]

/-- Looking at the position does not move it. -/
theorem bind_get (next : Cursor → Reader β) (cursor : Cursor) :
    ((get : Reader Cursor) >>= next) cursor = next cursor cursor := rfl

theorem map_of_ok
    {reader : Reader α}
    {f : α → β}
    {value : α}
    {cursor after : Cursor}
    (done : reader cursor = .ok value after) :
    (f <$> reader) cursor = .ok (f value) after := by
  change EStateM.map f reader cursor = _
  rw [EStateM.map, done]

theorem Reads.bind
    {first : Reader α}
    {next : α → Reader β}
    {front back : List UInt8}
    {value : α}
    {result : β}
    (readsFront : first.Reads front value)
    (readsBack : (next value).Reads back result) :
    (first >>= next).Reads (front ++ back) result := by
  intro offset rest
  rw [List.append_assoc, bind_of_ok (readsFront offset (back ++ rest)), readsBack,
    List.length_append, Nat.add_assoc]

theorem Reads.map
    {reader : Reader α}
    {bytes : List UInt8}
    {value : α}
    (f : α → β)
    (reads : reader.Reads bytes value) :
    (f <$> reader).Reads bytes (f value) :=
  fun offset rest => map_of_ok (reads offset rest)

theorem Exhausts.map
    {reader : Reader α}
    {bytes : List UInt8}
    {value : α}
    (f : α → β)
    (exhausts : reader.Exhausts bytes value) :
    (f <$> reader).Exhausts bytes (f value) :=
  fun offset => map_of_ok (exhausts offset)

theorem Reads.exhausts_bind
    {first : Reader α}
    {next : α → Reader β}
    {front back : List UInt8}
    {value : α}
    {result : β}
    (readsFront : first.Reads front value)
    (exhaustsBack : (next value).Exhausts back result) :
    (first >>= next).Exhausts (front ++ back) result := by
  intro offset
  rw [bind_of_ok (readsFront offset back), exhaustsBack, List.length_append, Nat.add_assoc]

/-! ### Numbers -/

theorem reads_byte (value : UInt8) : byte.Reads [value] value :=
  fun _ _ => rfl

/-- A number below 128 is its own last group. -/
private theorem reads_lastGroup (start groups : Nat) {value : Nat} (small : value < 128) :
    (varintGroups start (groups + 1)).Reads (Varint.encode value) (UInt64.ofNat value) := by
  have last : UInt8.ofNat value < 0x80 := by
    rw [UInt8.lt_iff_toNat_lt, UInt8.toNat_ofNat']
    change value % 256 < 128
    omega
  have same : (UInt8.ofNat value).toUInt64 = UInt64.ofNat value := by
    apply UInt64.toNat_inj.mp
    simp only [UInt8.toNat_toUInt64, UInt8.toNat_ofNat', UInt64.toNat_ofNat']
    omega
  rw [Varint.encode_of_lt small, ← List.append_nil [UInt8.ofNat value]]
  apply (reads_byte _).bind
  rw [if_pos last, same]
  exact reads_pure _

private theorem reads_varintGroups
    (start groups value : Nat)
    (small : value < Nat.pow 128 (groups + 1)) :
    (varintGroups start (groups + 1)).Reads (Varint.encode value) (UInt64.ofNat value) := by
  induction groups generalizing value with
  | zero => exact reads_lastGroup start 0 small
  | succ groups inductionHypothesis =>
      by_cases below : value < 128
      · exact reads_lastGroup start (groups + 1) below
      · have large : 128 ≤ value := Nat.le_of_not_lt below
        have another : ¬ UInt8.ofNat (value % 128 + 128) < 0x80 := by
          rw [UInt8.lt_iff_toNat_lt, UInt8.toNat_ofNat']
          change ¬ (value % 128 + 128) % 256 < 128
          omega
        have groupSum :
            (UInt8.ofNat (value % 128 + 128) - 0x80).toUInt64 + 128 * UInt64.ofNat (value / 128) =
              UInt64.ofNat value := by
          apply UInt64.toNat_inj.mp
          simp only [UInt64.toNat_add, UInt64.toNat_mul, UInt8.toNat_toUInt64, UInt8.toNat_sub,
            UInt8.toNat_ofNat', UInt64.toNat_ofNat', UInt8.reduceToNat, UInt64.reduceToNat]
          omega
        have quotientSmall : value / 128 < Nat.pow 128 (groups + 1) := by
          change value < Nat.pow 128 (groups + 1) * 128 at small
          omega
        have higher := inductionHypothesis (value / 128) quotientSmall
        rw [Varint.encode_of_le large, ← List.singleton_append]
        apply (reads_byte _).bind
        rw [if_neg another, ← List.append_nil (Varint.encode (value / 128))]
        apply higher.bind
        rw [groupSum]
        exact reads_pure _

theorem reads_varint {value : Nat} (small : value < UInt64.size) :
    varint.Reads (Varint.encode value) (UInt64.ofNat value) := by
  intro offset rest
  have groupsSuffice : value < Nat.pow 128 (9 + 1) :=
    Nat.lt_of_lt_of_le small (by decide)
  exact reads_varintGroups offset 9 value groupsSuffice offset rest

theorem reads_varint_toNat (number : UInt64) :
    varint.Reads (Varint.encode number.toNat) number := by
  have reads := reads_varint number.toNat_lt
  rwa [UInt64.ofNat_toNat] at reads

theorem reads_bytes (run : List UInt8) : (bytes run.length).Reads run run := by
  intro offset rest
  have enough : (Cursor.mk offset (run ++ rest)).has run.length = true := by
    rw [Cursor.has_iff, Cursor.remaining, List.length_append]
    omega
  unfold bytes
  rw [if_pos enough, List.take_left, List.drop_left]

/-- A length of 64 bits and that many bytes. -/
theorem reads_lengthDelimited {run : List UInt8} (fits : run.length < UInt64.size) :
    lengthDelimited.Reads (Word.lengthDelimited run) run := by
  apply (reads_varint fits).bind
  rw [UInt64.toNat_ofNat_of_lt' fits]
  exact reads_bytes run

theorem reads_key
    {tag : Nat}
    (wireType : WireType)
    (positive : Tag.min ≤ tag)
    (bounded : tag ≤ Tag.max) :
    key.Reads (Key.encode tag wireType) (tag, wireType) := by
  have low := wireType.number_lt_eight
  have fits : Key.number tag wireType < UInt64.size := by
    simp only [Tag.max] at bounded
    simp only [Key.number, UInt64.size]
    omega
  have upper : Key.number tag wireType / 8 = tag := by
    simp only [Key.number]
    omega
  have lower : Key.number tag wireType % 8 = wireType.number := by
    simp only [Key.number]
    omega
  have legal : ¬ (decide (tag < Tag.min) || decide (Tag.max < tag)) = true := by
    rw [Bool.or_eq_true, decide_eq_true_eq, decide_eq_true_eq]
    exact not_or.mpr ⟨Nat.not_lt.mpr positive, Nat.not_lt.mpr bounded⟩
  rw [Key.encode, ← List.append_nil (Varint.encode _)]
  apply (reads_varint fits).bind
  rw [UInt64.toNat_ofNat_of_lt' fits, upper, lower, WireType.ofNumber?_number]
  simp only [legal]
  exact reads_pure _

/-! ### Regions and repetition -/

theorem reads_within
    {reader : Reader α}
    {region : List UInt8}
    {value : α}
    (exhausts : reader.Exhausts region value) :
    (within region reader).Reads [] value := by
  intro offset rest
  unfold within
  rw [Cursor.ofBytes, exhausts 0]
  rfl

/-- A reader takes some pieces, none of them empty, one behind the other. -/
inductive ReadsPieces (reader : Reader α) : List UInt8 → List α → Prop where
  | nil : ReadsPieces reader [] []
  | cons {piece others : List UInt8} {value : α} {values : List α}
      (first : reader.Reads piece value)
      (nonempty : piece ≠ [])
      (rest : ReadsPieces reader others values) :
      ReadsPieces reader (piece ++ others) (value :: values)

theorem ReadsPieces.append
    {reader : Reader α}
    {front back : List UInt8}
    {values others : List α}
    (first : reader.ReadsPieces front values)
    (second : reader.ReadsPieces back others) :
    reader.ReadsPieces (front ++ back) (values ++ others) := by
  induction first with
  | nil => exact second
  | cons reads nonempty rest inductionHypothesis =>
      rw [List.append_assoc]
      exact .cons reads nonempty inductionHypothesis

theorem ReadsPieces.singleton
    {reader : Reader α}
    {piece : List UInt8}
    {value : α}
    (reads : reader.Reads piece value)
    (nonempty : piece ≠ []) :
    reader.ReadsPieces piece [value] := by
  rw [← List.append_nil piece]
  exact .cons reads nonempty .nil

private theorem repeatAtMost_exhausts
    {reader : Reader α}
    {bytes : List UInt8}
    {values : List α}
    (pieces : reader.ReadsPieces bytes values)
    {count : Nat}
    (enough : bytes.length ≤ count) :
    (repeatAtMost reader count).Exhausts bytes values := by
  induction pieces generalizing count with
  | nil => cases count <;> exact fun _ => rfl
  | @cons piece others value values first nonempty rest inductionHypothesis =>
      have pieceLength : 0 < piece.length := List.length_pos_iff.mpr nonempty
      rw [List.length_append] at enough
      obtain ⟨fewer, rfl⟩ : ∃ fewer, count = fewer + 1 := ⟨count - 1, by omega⟩
      have tail : (repeatAtMost reader fewer).Exhausts others values :=
        inductionHypothesis (by omega)
      intro offset
      have more : (Cursor.mk offset (piece ++ others)).isAtEnd = false := by
        rw [Cursor.isAtEnd, List.isEmpty_eq_false_iff]
        exact List.append_ne_nil_of_left_ne_nil nonempty others
      unfold repeatAtMost
      rw [more]
      exact first.exhausts_bind (tail.map (value :: ·)) offset

/-- Repeated up to the end, a reader takes all pieces that it reads one by one. -/
theorem ReadsPieces.many_exhausts
    {reader : Reader α}
    {bytes : List UInt8}
    {values : List α}
    (pieces : reader.ReadsPieces bytes values) :
    (many reader).Exhausts bytes values :=
  fun offset => repeatAtMost_exhausts pieces (Nat.le_refl bytes.length) offset

/-! ### Results -/

theorem bind_eq_ok
    {first : Reader α}
    {next : α → Reader β}
    {cursor after : Cursor}
    {result : β} :
    (first >>= next) cursor = .ok result after ↔
      ∃ value middle, first cursor = .ok value middle ∧ next value middle = .ok result after := by
  change EStateM.bind first next cursor = _ ↔ _
  unfold EStateM.bind
  cases first cursor with
  | error cause stopped => simp
  | ok value middle =>
      constructor
      · exact fun nextOk => ⟨value, middle, rfl, nextOk⟩
      · rintro ⟨_, _, ⟨⟩, nextOk⟩
        exact nextOk

theorem map_eq_ok
    {reader : Reader α}
    {f : α → β}
    {cursor after : Cursor}
    {result : β} :
    (f <$> reader) cursor = .ok result after ↔
      ∃ value, reader cursor = .ok value after ∧ f value = result := by
  change EStateM.map f reader cursor = _ ↔ _
  unfold EStateM.map
  cases reader cursor with
  | error cause stopped => simp
  | ok value middle =>
      constructor
      · rintro ⟨⟩
        exact ⟨value, rfl, rfl⟩
      · rintro ⟨_, ⟨⟩, rfl⟩
        rfl

theorem within_eq_ok
    {reader : Reader α}
    {region : List UInt8}
    {cursor after : Cursor}
    {value : α} :
    within region reader cursor = .ok value after ↔
      (∃ stopped, reader (Cursor.ofBytes region) = .ok value stopped) ∧ cursor = after := by
  unfold within
  cases reader (Cursor.ofBytes region) <;> simp

/-- Every value that a reader returns has a property, whatever bytes it takes. -/
def Yields (reader : Reader α) (Holds : α → Prop) : Prop :=
  ∀ cursor value after, reader cursor = .ok value after → Holds value

theorem yields_pure {Holds : α → Prop} {value : α} (holds : Holds value) :
    (pure value : Reader α).Yields Holds := by
  intro cursor result after returned
  cases returned
  exact holds

theorem yields_throw {Holds : α → Prop} (cause : WireError) :
    (throw cause : Reader α).Yields Holds :=
  fun _ _ _ returned => nomatch returned

theorem Yields.bind
    {first : Reader α}
    {next : α → Reader β}
    {Middle : α → Prop}
    {Holds : β → Prop}
    (yieldsFirst : first.Yields Middle)
    (yieldsNext : ∀ value, Middle value → (next value).Yields Holds) :
    (first >>= next).Yields Holds := by
  intro cursor result after returned
  obtain ⟨value, middle, firstOk, nextOk⟩ := bind_eq_ok.mp returned
  exact yieldsNext value (yieldsFirst cursor value middle firstOk) middle result after nextOk

/-- What the last step of a sequence yields, the sequence yields. -/
theorem yields_bind
    {first : Reader α}
    {next : α → Reader β}
    {Holds : β → Prop}
    (yieldsNext : ∀ value, (next value).Yields Holds) :
    (first >>= next).Yields Holds := by
  intro cursor result after returned
  obtain ⟨value, middle, -, nextOk⟩ := bind_eq_ok.mp returned
  exact yieldsNext value middle result after nextOk

theorem yields_map
    {reader : Reader α}
    {f : α → β}
    {Holds : β → Prop}
    (holds : ∀ value, Holds (f value)) :
    (f <$> reader).Yields Holds := by
  intro cursor result after returned
  obtain ⟨value, -, rfl⟩ := map_eq_ok.mp returned
  exact holds value

theorem Yields.within
    {reader : Reader α}
    {Holds : α → Prop}
    (yields : reader.Yields Holds)
    (region : List UInt8) :
    (within region reader).Yields Holds := by
  intro cursor value after returned
  obtain ⟨⟨stopped, inside⟩, -⟩ := within_eq_ok.mp returned
  exact yields _ value stopped inside

private theorem yields_repeatAtMost
    {reader : Reader α}
    {Holds : α → Prop}
    (yields : reader.Yields Holds)
    (count : Nat) :
    (repeatAtMost reader count).Yields fun values => ∀ value ∈ values, Holds value := by
  induction count with
  | zero => exact yields_pure fun _ member => nomatch member
  | succ count inductionHypothesis =>
      intro cursor values after returned
      unfold repeatAtMost at returned
      split at returned
      · cases returned
        exact fun _ member => nomatch member
      · obtain ⟨first, middle, firstOk, rest⟩ := bind_eq_ok.mp returned
        obtain ⟨others, othersOk, rfl⟩ := map_eq_ok.mp rest
        intro value member
        rcases List.mem_cons.mp member with rfl | later
        · exact yields cursor value middle firstOk
        · exact inductionHypothesis middle others after othersOk value later

theorem Yields.many
    {reader : Reader α}
    {Holds : α → Prop}
    (yields : reader.Yields Holds) :
    (many reader).Yields fun values => ∀ value ∈ values, Holds value :=
  fun cursor values after returned =>
    yields_repeatAtMost yields cursor.remaining cursor values after returned

end Reader

end ProtoWire
