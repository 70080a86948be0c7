import ProtoWire.Proofs.Wire.Motion

/-!
Contract: readers on bytes that were cut off. A reader that succeeds on some bytes does not notice
a cut behind the bytes that it takes, and reports a cut in front of their end as missing bytes.

Owns:
- the causes that report missing bytes;
- readers that notice a cut, and their laws for sequences, regions and repetition;
- the readers of numbers and runs on cut bytes.

Does not own: fields, messages or frames.
-/

namespace ProtoWire

/-- Bytes are missing: a number or a run goes on behind the end. -/
def WireError.IsShortage : WireError → Prop
  | .truncatedBuffer _ => True
  | .outOfBounds _ _ _ => True
  | _ => False

namespace Reader

variable {α β : Type}

/-- Bytes are reported to be missing. -/
def Ending.IsShortage : Ending α → Prop
  | .ok _ _ => False
  | .error cause _ => cause.IsShortage

theorem Ending.IsShortage.exists_error {ending : Ending α} (short : ending.IsShortage) :
    ∃ cause after, ending = .error cause after ∧ cause.IsShortage := by
  cases ending with
  | ok value after => exact short.elim
  | error cause after => exact ⟨cause, after, rfl, short⟩

/-- Wherever a reader succeeds, it returns the same from the front part of the bytes alone, or
reports that bytes are missing there. -/
def NoticesCuts (reader : Reader α) : Prop :=
  ∀ offset front back value after, reader ⟨offset, front ++ back⟩ = .ok value after →
    (∃ left, after.rest = left ++ back ∧
        reader ⟨offset, front⟩ = .ok value ⟨after.offset, left⟩) ∨
      Ending.IsShortage (reader ⟨offset, front⟩)

/-! ### Laws -/

theorem noticesCuts_pure (value : α) : (pure value : Reader α).NoticesCuts := by
  intro offset front back result after returned
  cases returned
  exact .inl ⟨front, rfl, rfl⟩

theorem noticesCuts_throw (cause : WireError) : (throw cause : Reader α).NoticesCuts :=
  fun _ _ _ _ _ returned => nomatch returned

theorem NoticesCuts.bind
    {first : Reader α}
    {next : α → Reader β}
    (notices : first.NoticesCuts)
    (nextNotices : ∀ value, (next value).NoticesCuts) :
    (first >>= next).NoticesCuts := by
  intro offset front back result after returned
  obtain ⟨value, ⟨position, rest⟩, firstOk, nextOk⟩ := bind_eq_ok.mp returned
  rcases notices offset front back value _ firstOk with ⟨left, same, again⟩ | short
  · obtain rfl : rest = left ++ back := same
    rw [bind_of_ok again]
    exact nextNotices value position left back result after nextOk
  · obtain ⟨cause, stopped, outcome, missing⟩ := short.exists_error
    rw [bind_of_error outcome]
    exact .inr missing

theorem keptBySequences_noticesCuts : KeptBySequences NoticesCuts where
  returning := noticesCuts_pure
  failing := noticesCuts_throw
  sequence := NoticesCuts.bind

/-- A region is there as a whole, so that a cut behind it does not matter. -/
theorem noticesCuts_within (region : List UInt8) (reader : Reader α) :
    (within region reader).NoticesCuts := by
  intro offset front back value after returned
  obtain ⟨inside, rfl⟩ := within_eq_ok.mp returned
  exact .inl ⟨front, rfl, within_eq_ok.mpr ⟨inside, rfl⟩⟩

/-! ### Pieces -/

/-- A cut between two pieces: the pieces in front of it and behind it are all pieces. -/
def CutsBetween (reader : Reader α) (front back : List UInt8) (values others : List α) : Prop :=
  reader.ReadsPieces front values ∧ reader.ReadsPieces back others

/-- The first of some pieces. -/
theorem ReadsPieces.exists_first
    {reader : Reader α}
    {bytes : List UInt8}
    {all : List α}
    (pieces : reader.ReadsPieces bytes all)
    (nonempty : bytes ≠ []) :
    ∃ piece rest value values, bytes = piece ++ rest ∧ all = value :: values ∧
      reader.Reads piece value ∧ piece ≠ [] ∧ reader.ReadsPieces rest values := by
  cases pieces with
  | nil => exact absurd rfl nonempty
  | cons reads pieceNonempty rest => exact ⟨_, _, _, _, rfl, rfl, reads, pieceNonempty, rest⟩

/-- Repeated up to the end, a local reader takes the pieces in front of a cut if the cut stands
between two pieces, and else reports that bytes are missing. -/
theorem NoticesCuts.many
    {reader : Reader α}
    (notices : reader.NoticesCuts)
    (isLocal : reader.IsLocal)
    (needs : reader.NeedsBytes)
    (cursor : Cursor) :
    ∀ {back : List UInt8} {all : List α}, reader.ReadsPieces (cursor.rest ++ back) all →
      (∃ values others, all = values ++ others ∧
          reader.CutsBetween cursor.rest back values others) ∨
        Ending.IsShortage (many reader cursor) := by
  refine many_induction isLocal needs
    (motive := fun cursor ending => ∀ {back all}, reader.ReadsPieces (cursor.rest ++ back) all →
      (∃ values others, all = values ++ others ∧
          reader.CutsBetween cursor.rest back values others) ∨ Ending.IsShortage ending)
    ?finished ?refused ?more cursor
  case finished =>
    intro cursor atEnd back all pieces
    rw [atEnd] at pieces ⊢
    exact .inl ⟨[], all, rfl, .nil, pieces⟩
  case refused =>
    rintro ⟨offset, front⟩ cause after nonempty failed back all pieces
    obtain ⟨piece, rest, value, values, whole, -, reads, -, -⟩ :=
      pieces.exists_first (List.append_ne_nil_of_left_ne_nil nonempty back)
    have returned := reads offset rest
    rw [← whole] at returned
    rcases notices offset front back value _ returned with ⟨left, -, again⟩ | short
    · rw [failed] at again
      cases again
    · rw [failed] at short
      exact .inr short
  case more =>
    rintro ⟨offset, front⟩ first middle ending nonempty outcome inductionHypothesis back all pieces
    obtain ⟨piece, rest, value, values, whole, rfl, reads, pieceNonempty, remaining⟩ :=
      pieces.exists_first (List.append_ne_nil_of_left_ne_nil nonempty back)
    have returned := reads offset rest
    rw [← whole] at returned
    rcases notices offset front back value _ returned with ⟨left, behind, again⟩ | short
    · obtain rfl : rest = left ++ back := behind
      obtain ⟨rfl, rfl⟩ := EStateM.Result.ok.inj (outcome.symm.trans again)
      have start : front = piece ++ left := by
        rw [← List.append_assoc] at whole
        exact List.append_cancel_right whole
      rcases inductionHypothesis remaining with ⟨values, others, rfl, inFront, later⟩ | short
      · refine .inl ⟨first :: values, others, rfl, ?_, later⟩
        show reader.ReadsPieces front (first :: values)
        rw [start]
        exact .cons reads pieceNonempty inFront
      · obtain ⟨cause, stopped, rfl, missing⟩ := short.exists_error
        exact .inr missing
    · rw [outcome] at short
      exact short.elim

/-! ### Numbers and runs -/

theorem noticesCuts_byte : byte.NoticesCuts := by
  intro offset front back value after returned
  cases front with
  | nil => exact .inr trivial
  | cons first others =>
      cases returned
      exact .inl ⟨others, rfl, rfl⟩

theorem noticesCuts_bytes (count : Nat) : (bytes count).NoticesCuts := by
  intro offset front back run after returned
  obtain ⟨-, rfl, rfl⟩ := bytes_eq_ok.mp returned
  by_cases inside : count ≤ front.length
  · refine .inl ⟨front.drop count, List.drop_append_of_le_length inside, ?_⟩
    refine bytes_eq_ok.mpr ⟨inside, ?_, rfl⟩
    exact List.take_append_of_le_length inside
  · right
    have short : (Cursor.mk offset front).has count = false := by
      rw [Bool.eq_false_iff, ne_eq, Cursor.has_iff]
      exact inside
    unfold bytes
    rw [short]
    trivial

theorem noticesCuts_varint : varint.NoticesCuts :=
  fun offset front back => keptBySequences_noticesCuts.varintGroups noticesCuts_byte offset
    Varint.maxGroups offset front back

/-- Text and byte strings, which are read up to the end, would take a cut for their end. -/
theorem keptByReaders_noticesCuts : KeptByReaders NoticesCuts where
  toKeptBySequences := keptBySequences_noticesCuts
  varint := noticesCuts_varint
  bytes := noticesCuts_bytes
  within := noticesCuts_within

end Reader

end ProtoWire
