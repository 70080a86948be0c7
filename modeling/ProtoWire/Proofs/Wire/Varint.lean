import Mathlib.Data.Nat.Digits.Defs
import ProtoWire.Proofs.Wire.Emission
import ProtoWire.Proofs.Wire.Motion

/-!
Contract: base-128 numbers are read and written exactly. The reader looks for the first byte whose
top bit is clear among the next ten, and what it has passed decides the number; what is written for
a number is the shortest that reads as it.

Owns:
- the runs of bytes that stand for a number, and the number of a run;
- what the reader returns from any position, and where it stops;
- the number of bytes that are written, as the least one.

Does not own: which scalar types are written as base-128 numbers.
-/

namespace ProtoWire

namespace Varint

/-! ### Runs -/

/-- All bytes but the last one have their top bit set. -/
inductive IsRun : List UInt8 → Prop where
  | last {byte : UInt8} (ends : byte < 0x80) : IsRun [byte]
  | more {byte : UInt8} {others : List UInt8} (goesOn : 0x80 ≤ byte) (rest : IsRun others) :
      IsRun (byte :: others)

/-- The groups of seven bits of a run, as the digits of a number in base 128. -/
def groups (run : List UInt8) : List Nat :=
  run.map fun byte => byte.toNat % 128

/-- The number that a run stands for, before it is cut down to 64 bits. -/
def number (run : List UInt8) : Nat :=
  Nat.ofDigits 128 (groups run)

theorem number_cons (byte : UInt8) (others : List UInt8) :
    number (byte :: others) = byte.toNat % 128 + 128 * number others :=
  Nat.ofDigits_cons

theorem number_lt (run : List UInt8) : number run < 128 ^ run.length := by
  have bounded : ∀ group ∈ groups run, group < 128 := by
    intro group member
    obtain ⟨byte, -, rfl⟩ := List.mem_map.mp member
    exact Nat.mod_lt _ (by decide)
  have below := Nat.ofDigits_lt_base_pow_length (by decide) bounded
  rwa [groups, List.length_map] at below

/-- A number with few groups has a small size. -/
theorem size_le_of_lt {value count : Nat} (below : value < 128 ^ count) (positive : 0 < count) :
    size value ≤ count := by
  have bits : value.log2 < 7 * count := by
    by_cases zero : value = 0
    · subst zero
      rw [Nat.log2_zero]
      omega
    · rw [Nat.log2_lt zero, Nat.pow_mul]
      exact below
  unfold size
  omega

theorem IsRun.ne_nil {run : List UInt8} (isRun : IsRun run) : run ≠ [] := by
  cases isRun <;> exact nofun

/-- Among some bytes, either a run is found, or all of them have their top bit set. -/
theorem exists_run (count : Nat) (bytes : List UInt8) :
    (∃ run behind, IsRun run ∧ run.length ≤ count ∧ bytes = run ++ behind) ∨
      ∀ byte ∈ bytes.take count, 0x80 ≤ byte := by
  induction count generalizing bytes with
  | zero => exact .inr nofun
  | succ count inductionHypothesis =>
      cases bytes with
      | nil => exact .inr nofun
      | cons byte others =>
          by_cases ends : byte < 0x80
          · exact .inl ⟨[byte], others, .last ends, Nat.succ_le_succ (Nat.zero_le count), rfl⟩
          · have goesOn : 0x80 ≤ byte := UInt8.not_lt.mp ends
            rcases inductionHypothesis others with ⟨run, behind, isRun, short, rfl⟩ | all
            · exact .inl ⟨byte :: run, behind, .more goesOn isRun, Nat.succ_le_succ short, rfl⟩
            · refine .inr fun other member => ?_
              rcases List.mem_cons.mp member with rfl | later
              · exact goesOn
              · exact all other later

/-- A run ends with a byte whose top bit is clear. -/
theorem IsRun.exists_last {run : List UInt8} (isRun : IsRun run) : ∃ byte ∈ run, byte < 0x80 := by
  induction isRun with
  | last ends => exact ⟨_, List.mem_singleton_self _, ends⟩
  | more goesOn rest inductionHypothesis =>
      obtain ⟨byte, member, ends⟩ := inductionHypothesis
      exact ⟨byte, List.mem_cons_of_mem _ member, ends⟩

end Varint

namespace Reader

open Varint

/-! ### Reading -/

/-- A run that is short enough is read as its number. -/
theorem reads_run
    {run : List UInt8}
    (isRun : IsRun run)
    (start : Nat)
    {count : Nat}
    (short : run.length ≤ count) :
    (varintGroups start count).Reads run (UInt64.ofNat (number run)) := by
  induction isRun generalizing count with
  | @last byte ends =>
      obtain ⟨fewer, rfl⟩ : ∃ fewer, count = fewer + 1 := ⟨count - 1, by simp at short; omega⟩
      have same : byte.toUInt64 = UInt64.ofNat (number [byte]) := by
        have small : byte.toNat < 128 := ends
        apply UInt64.toNat_inj.mp
        rw [UInt8.toNat_toUInt64, UInt64.toNat_ofNat', number_cons]
        change byte.toNat = (byte.toNat % 128 + 128 * 0) % 2 ^ 64
        omega
      rw [← same, ← List.append_nil [byte]]
      apply (reads_byte byte).bind
      rw [if_pos ends]
      exact reads_pure _
  | @more byte others goesOn rest inductionHypothesis =>
      rw [List.length_cons] at short
      obtain ⟨fewer, rfl⟩ : ∃ fewer, count = fewer + 1 := ⟨count - 1, by omega⟩
      -- The sum is taken modulo 2 ^ 64 at each byte, which comes to the same as at the end.
      have sum : (byte - 0x80).toUInt64 + 128 * UInt64.ofNat (number others) =
          UInt64.ofNat (number (byte :: others)) := by
        have large : 128 ≤ byte.toNat := goesOn
        have bound := byte.toNat_lt
        apply UInt64.toNat_inj.mp
        simp only [UInt64.toNat_add, UInt64.toNat_mul, UInt8.toNat_toUInt64, UInt8.toNat_sub,
          UInt64.toNat_ofNat', UInt8.reduceToNat, UInt64.reduceToNat, number_cons]
        omega
      rw [← sum, ← List.singleton_append]
      apply (reads_byte byte).bind
      rw [if_neg (UInt8.not_lt.mpr goesOn)]
      have higher := (inductionHypothesis (Nat.le_of_succ_le_succ short)).map fun word =>
        (byte - 0x80).toUInt64 + 128 * word
      exact higher

/-- Bytes whose top bits are set are passed until no group or no byte is left. -/
theorem varintGroups_of_goesOn
    (start count : Nat)
    {cursor : Cursor}
    (all : ∀ byte ∈ cursor.rest.take count, 0x80 ≤ byte) :
    varintGroups start count cursor =
      if count ≤ cursor.remaining then .error (.malformedVarint start) (cursor.skip count)
      else
        .error (.truncatedBuffer (cursor.offset + cursor.remaining))
          (cursor.skip cursor.remaining) := by
  induction count generalizing cursor with
  | zero => rfl
  | succ count inductionHypothesis =>
      obtain ⟨offset, bytes⟩ := cursor
      cases bytes with
      | nil => rfl
      | cons byte others =>
          obtain ⟨goesOn, rest⟩ := List.forall_mem_cons.mp all
          have one : Reader.byte ⟨offset, byte :: others⟩ = .ok byte ⟨offset + 1, others⟩ := rfl
          have further (distance : Nat) :
              Cursor.skip ⟨offset + 1, others⟩ distance =
                Cursor.skip ⟨offset, byte :: others⟩ (distance + 1) := by
            rw [Cursor.skip, Cursor.skip, Nat.add_assoc, Nat.add_comm 1]
            rfl
          have passed := @inductionHypothesis ⟨offset + 1, others⟩ rest
          rw [further, further, Nat.add_assoc, Nat.add_comm 1] at passed
          rw [varintGroups, bind_of_ok one, if_neg (UInt8.not_lt.mpr goesOn)]
          by_cases enough : count ≤ others.length
          · have stopped := passed.trans (if_pos enough)
            have more : count + 1 ≤ (Cursor.mk offset (byte :: others)).remaining :=
              Nat.succ_le_succ enough
            rw [bind_of_error stopped, if_pos more]
          · have stopped := passed.trans (if_neg enough)
            have fewer : ¬ count + 1 ≤ (Cursor.mk offset (byte :: others)).remaining :=
              fun more => enough (Nat.le_of_succ_le_succ more)
            rw [bind_of_error stopped, if_neg fewer]
            rfl

section Ten

variable {cursor : Cursor}

theorem varint_of_run
    {run : List UInt8}
    (isRun : IsRun run)
    (short : run.length ≤ 10) :
    varint.Reads run (UInt64.ofNat (number run)) :=
  fun offset rest => reads_run isRun offset short offset rest

theorem varint_malformed
    (all : ∀ byte ∈ cursor.rest.take 10, 0x80 ≤ byte)
    (enough : 10 ≤ cursor.remaining) :
    varint cursor = .error (.malformedVarint cursor.offset) (cursor.skip 10) :=
  (varintGroups_of_goesOn cursor.offset 10 all).trans (if_pos enough)

theorem varint_truncated
    (all : ∀ byte ∈ cursor.rest.take 10, 0x80 ≤ byte)
    (few : ¬ 10 ≤ cursor.remaining) :
    varint cursor =
      .error (.truncatedBuffer (cursor.offset + cursor.remaining))
        (cursor.skip cursor.remaining) :=
  (varintGroups_of_goesOn cursor.offset 10 all).trans (if_neg few)

/-- Either a run is read, or there is none. -/
theorem varint_cases (cursor : Cursor) :
    (∃ run behind, IsRun run ∧ run.length ≤ 10 ∧ cursor.rest = run ++ behind ∧
        varint cursor =
          .ok (UInt64.ofNat (number run)) ⟨cursor.offset + run.length, behind⟩) ∨
      ∀ byte ∈ cursor.rest.take 10, 0x80 ≤ byte := by
  obtain ⟨offset, bytes⟩ := cursor
  rcases exists_run 10 bytes with ⟨run, behind, isRun, short, rfl⟩ | all
  · exact .inl ⟨run, behind, isRun, short, rfl, varint_of_run isRun short offset behind⟩
  · exact .inr all

theorem exists_error_of_goesOn (all : ∀ byte ∈ cursor.rest.take 10, 0x80 ≤ byte) :
    ∃ cause after, varint cursor = .error cause after := by
  by_cases enough : 10 ≤ cursor.remaining
  · exact ⟨_, _, varint_malformed all enough⟩
  · exact ⟨_, _, varint_truncated all enough⟩

/-- What the reader of base-128 numbers does at a position, by the next ten bytes. -/
structure ReadsRun (cursor : Cursor) : Prop where
  /-- A number is returned exactly if a run stands in front. The run is passed, and what it stands
  for is taken modulo `2 ^ 64`. -/
  returns : ∀ word after, varint cursor = .ok word after ↔
    ∃ run, IsRun run ∧ run.length ≤ 10 ∧ cursor.rest = run ++ after.rest ∧
      after.offset = cursor.offset + run.length ∧ word.toNat = number run % 2 ^ 64
  /-- A run stands in front exactly if one of ten bytes has its top bit clear. -/
  succeeds : (∃ word after, varint cursor = .ok word after) ↔
    ∃ byte ∈ cursor.rest.take 10, byte < 0x80
  /-- Ten bytes without an end are malformed, and fewer bytes without an end are cut off. -/
  fails : ∀ cause after, varint cursor = .error cause after ↔
    (∀ byte ∈ cursor.rest.take 10, 0x80 ≤ byte) ∧
      if 10 ≤ cursor.remaining then
        cause = .malformedVarint cursor.offset ∧ after = cursor.skip 10
      else
        cause = .truncatedBuffer (cursor.offset + cursor.remaining) ∧
          after = cursor.skip cursor.remaining

/-- A number that is returned is that of a run in front. -/
private theorem exists_run_of_varint
    {after : Cursor}
    {word : UInt64}
    (returned : varint cursor = .ok word after) :
    ∃ run, IsRun run ∧ run.length ≤ 10 ∧ cursor.rest = run ++ after.rest ∧
      after.offset = cursor.offset + run.length ∧ word.toNat = number run % 2 ^ 64 := by
  rcases varint_cases cursor with ⟨run, behind, isRun, short, front, read⟩ | all
  · obtain ⟨rfl, rfl⟩ := EStateM.Result.ok.inj (read.symm.trans returned)
    exact ⟨run, isRun, short, front, rfl, UInt64.toNat_ofNat'⟩
  · obtain ⟨cause, stopped, failed⟩ := exists_error_of_goesOn all
    cases failed.symm.trans returned

/-- A run at the front ends within the next bytes. -/
private theorem exists_end
    {bytes run behind : List UInt8}
    (isRun : IsRun run)
    (short : run.length ≤ 10)
    (front : bytes = run ++ behind) :
    ∃ byte ∈ bytes.take 10, byte < 0x80 := by
  obtain ⟨byte, member, ends⟩ := isRun.exists_last
  refine ⟨byte, ?_, ends⟩
  rw [front, List.take_append, List.take_of_length_le short]
  exact List.mem_append_left _ member

theorem readsRun (cursor : Cursor) : ReadsRun cursor where
  returns := by
    intro word after
    refine ⟨exists_run_of_varint, ?_⟩
    rintro ⟨run, isRun, short, front, place, same⟩
    obtain ⟨offset, bytes⟩ := cursor
    obtain ⟨afterOffset, behind⟩ := after
    obtain rfl : bytes = run ++ behind := front
    obtain rfl : afterOffset = offset + run.length := place
    obtain rfl : word = UInt64.ofNat (number run) :=
      UInt64.toNat_inj.mp (same.trans UInt64.toNat_ofNat'.symm)
    exact varint_of_run isRun short offset behind
  succeeds := by
    constructor
    · rintro ⟨word, after, returned⟩
      obtain ⟨run, isRun, short, front, -⟩ := exists_run_of_varint returned
      exact exists_end isRun short front
    · rintro ⟨byte, member, ends⟩
      rcases varint_cases cursor with ⟨run, behind, -, -, -, read⟩ | all
      · exact ⟨_, _, read⟩
      · exact absurd ends (UInt8.not_lt.mpr (all byte member))
  fails := by
    intro cause after
    by_cases all : ∀ byte ∈ cursor.rest.take 10, 0x80 ≤ byte
    · by_cases enough : 10 ≤ cursor.remaining
      · rw [varint_malformed all enough, if_pos enough, EStateM.Result.error.injEq]
        exact ⟨fun ⟨same, place⟩ => ⟨all, same.symm, place.symm⟩,
          fun ⟨_, same, place⟩ => ⟨same.symm, place.symm⟩⟩
      · rw [varint_truncated all enough, if_neg enough, EStateM.Result.error.injEq]
        exact ⟨fun ⟨same, place⟩ => ⟨all, same.symm, place.symm⟩,
          fun ⟨_, same, place⟩ => ⟨same.symm, place.symm⟩⟩
    · refine ⟨fun failed => ?_, fun stopped => absurd stopped.1 all⟩
      rcases varint_cases cursor with ⟨run, behind, -, -, -, read⟩ | none
      · cases read.symm.trans failed
      · exact absurd none all

end Ten

/-! ### Writing -/

/-- What is written for a number is as short as anything that is read as it. -/
structure WritesShortest (word : UInt64) (written : List UInt8) : Prop where
  /-- The bytes are put behind a buffer. -/
  appends : ∀ buffer,
    (Emission.ofBytes (Word.varint word)).appendTo buffer = (buffer ++ written, .ok ())
  /-- The size that is computed beforehand counts the bytes. -/
  length : written.length = size word.toNat
  /-- The bytes are read back, whatever follows them. -/
  readsBack : varint.Reads written word
  /-- Whatever is read as the number, no fewer bytes are passed. -/
  shortest : ∀ cursor after, varint cursor = .ok word after →
    cursor.offset + written.length ≤ after.offset

theorem writesShortest (word : UInt64) : WritesShortest word (Word.varint word) where
  appends := fun _ => rfl
  length := length_encode word.toNat
  readsBack := reads_varint_toNat word
  shortest := by
    intro cursor after returned
    obtain ⟨run, isRun, -, -, place, same⟩ := exists_run_of_varint returned
    -- A run for the number has a group for each digit of the number in base 128.
    have below : word.toNat < 128 ^ run.length := by
      rw [same]
      exact Nat.lt_of_le_of_lt (Nat.mod_le _ _) (number_lt run)
    have fits := size_le_of_lt below (List.length_pos_iff.mpr isRun.ne_nil)
    rw [place, Word.varint, length_encode]
    exact Nat.add_le_add_left fits cursor.offset

/-- Base-128 numbers are read exactly as their runs say, and written as their shortest runs. -/
theorem varint_exact :
    (∀ cursor, ReadsRun cursor) ∧ ∀ word, ∃ written, WritesShortest word written :=
  ⟨readsRun, fun word => ⟨Word.varint word, writesShortest word⟩⟩

/-- Of the tenth byte, only the lowest bit counts. -/
example :
    varint ⟨3, [0x81, 0x80, 0x80, 0x80, 0x80, 0x80, 0x80, 0x80, 0x80, 0x7e, 5]⟩ =
      .ok 1 ⟨13, [5]⟩ := rfl

end Reader

end ProtoWire
