import ProtoWire.Proofs.Value.Weight
import ProtoWire.Proofs.Wire.Motion

/-!
Contract: what a reader returns is paid for by the bytes that it takes. A price is set on results,
and every byte that is passed pays for one unit of it; what goes beyond that is the credit that a
reader needs.

Owns:
- readers that pay for their results, and their laws for sequences, regions and repetition;
- the bytes that runs, texts and keys pay with.

Does not own: the prices of values.
-/

namespace ProtoWire

namespace Reader

variable {α β : Type}

/-- The price of a result is at most the bytes that were taken and the credit. -/
def Pays (reader : Reader α) (price : α → Nat) (credit : Nat) : Prop :=
  ∀ cursor value after, reader cursor = .ok value after →
    price value + after.remaining ≤ cursor.remaining + credit

section Laws

variable
  {reader : Reader α}
  {price : α → Nat}
  {credit : Nat}

theorem pays_pure {value : α} (covered : price value ≤ credit) :
    (pure value : Reader α).Pays price credit := by
  intro cursor result after returned
  cases returned
  omega

theorem pays_throw (cause : WireError) : (throw cause : Reader α).Pays price credit :=
  fun _ _ _ returned => nomatch returned

/-- Lower prices for the values that are returned. -/
theorem Pays.lower
    (pays : reader.Pays price credit)
    {lower : α → Nat}
    (lowers : reader.Yields fun value => lower value ≤ price value) :
    reader.Pays lower credit := by
  intro cursor value after returned
  have paid := pays cursor value after returned
  have cheaper := lowers cursor value after returned
  omega

theorem Pays.more
    (pays : reader.Pays price credit)
    {more : Nat}
    (enough : credit ≤ more) :
    reader.Pays price more := by
  intro cursor value after returned
  have paid := pays cursor value after returned
  omega

/-- Both sides grow alike. -/
theorem Pays.add (pays : reader.Pays price credit) (extra : Nat) :
    reader.Pays (fun value => extra + price value) (extra + credit) := by
  intro cursor value after returned
  have paid := pays cursor value after returned
  show extra + price value + after.remaining ≤ cursor.remaining + (extra + credit)
  omega

/-- What the first reader has paid for is credit to the second one. -/
theorem Pays.bind
    (pays : reader.Pays price credit)
    {next : α → Reader β}
    {nextPrice : β → Nat}
    (nextPays : ∀ value, (next value).Pays nextPrice (price value)) :
    (reader >>= next).Pays nextPrice credit := by
  intro cursor result after returned
  obtain ⟨value, middle, firstOk, nextOk⟩ := bind_eq_ok.mp returned
  have paid := pays cursor value middle firstOk
  have nextPaid := nextPays value middle result after nextOk
  omega

theorem Pays.map
    {f : α → β}
    {mappedPrice : β → Nat}
    (pays : reader.Pays (fun value => mappedPrice (f value)) credit) :
    (f <$> reader).Pays mappedPrice credit := by
  intro cursor result after returned
  obtain ⟨value, valueOk, rfl⟩ := map_eq_ok.mp returned
  exact pays cursor value after valueOk

/-- A region is paid for in advance. -/
theorem Pays.within (pays : reader.Pays price credit) (region : List UInt8) :
    (within region reader).Pays price (region.length + credit) := by
  intro cursor value after returned
  obtain ⟨⟨stopped, inside⟩, rfl⟩ := within_eq_ok.mp returned
  have paid := pays _ value stopped inside
  show price value + cursor.remaining ≤ _
  have length : (Cursor.ofBytes region).remaining = region.length := rfl
  omega

private theorem pays_repeatAtMost (pays : reader.Pays price 0) (count : Nat) :
    (repeatAtMost reader count).Pays (fun values => Schema.totalSize (values.map price)) 0 := by
  induction count with
  | zero => exact pays_pure (Nat.le_refl 0)
  | succ count inductionHypothesis =>
      intro cursor values after returned
      unfold repeatAtMost at returned
      split at returned
      · cases returned
        exact Nat.le_of_eq (Nat.zero_add _)
      · obtain ⟨first, middle, firstOk, rest⟩ := bind_eq_ok.mp returned
        obtain ⟨others, othersOk, rfl⟩ := map_eq_ok.mp rest
        have paid := pays cursor first middle firstOk
        have othersPaid : Schema.totalSize (others.map price) + after.remaining ≤
            middle.remaining + 0 := inductionHypothesis middle others after othersOk
        show price first + Schema.totalSize (others.map price) + after.remaining ≤ _
        omega

/-- Readers that need no credit pay for any number of results. -/
theorem Pays.many (pays : reader.Pays price 0) :
    (many reader).Pays (fun values => Schema.totalSize (values.map price)) 0 :=
  fun cursor => pays_repeatAtMost pays cursor.remaining cursor

/-- Results without a price cost nothing. -/
theorem StaysInside.pays (inside : reader.StaysInside) : reader.Pays (fun _ => 0) 0 := by
  intro cursor value after returned
  obtain ⟨count, -, stopped⟩ := inside cursor
  rw [returned] at stopped
  obtain rfl : after = cursor.skip count := stopped
  have behind := Cursor.remaining_skip cursor count
  show 0 + (cursor.skip count).remaining ≤ cursor.remaining + 0
  omega

/-- A reader that always moves on pays for one unit. -/
theorem IsLocal.pays (isLocal : reader.IsLocal) (needs : reader.NeedsBytes) :
    reader.Pays (fun _ => 1) 0 := by
  intro cursor value after returned
  have moved := isLocal.remaining_lt needs returned
  show 1 + after.remaining ≤ cursor.remaining + 0
  omega

end Laws

/-! ### Runs, texts and keys -/

theorem pays_bytes (count : Nat) : (bytes count).Pays List.length 0 := by
  intro cursor run after returned
  obtain ⟨enough, rfl, rfl⟩ := bytes_eq_ok.mp returned
  have length : (cursor.rest.take count).length = count := List.length_take_of_le enough
  rw [length, Cursor.remaining_skip]
  omega

theorem pays_rest : rest.Pays List.length 0 := by
  intro cursor run after returned
  cases returned
  exact Nat.le_refl _

/-- A text holds as many bytes as it is read from. -/
theorem utf8ByteSize_of_decodeText? {run : List UInt8} {text : String}
    (decoded : decodeText? run = some text) :
    text.utf8ByteSize = run.length := by
  unfold decodeText? String.fromUTF8? at decoded
  split at decoded
  · obtain rfl := Option.some.inj decoded
    exact List.size_toByteArray
  · cases decoded

theorem pays_restAsText : restAsText.Pays String.utf8ByteSize 0 := by
  apply pays_rest.bind
  intro run
  cases decoded : decodeText? run with
  | none => exact pays_throw _
  | some text => exact pays_pure (Nat.le_of_eq (utf8ByteSize_of_decodeText? decoded))

/-- The length in front of a run pays for one unit more than the run holds. -/
theorem pays_lengthDelimited : lengthDelimited.Pays (fun run => 1 + run.length) 0 :=
  (isLocal_varint.pays needsBytes_varint).bind fun length => (pays_bytes length.toNat).add 1

theorem pays_key : key.Pays (fun _ => 1) 0 :=
  isLocal_key.pays needsBytes_key

end Reader

end ProtoWire
