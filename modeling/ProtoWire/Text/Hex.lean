/-!
Contract: hexadecimal digits, written in lower case and read in either case.

Owns:
- one digit in both directions;
- numbers written with a fixed count of digits or with as few as possible.

Does not own: what is written around the digits.
-/

namespace ProtoWire.Hex

/-- The digit of a number below sixteen. -/
def digit (value : Nat) : Char :=
  if value < 10 then Char.ofNat (48 + value) else Char.ofNat (87 + value)

/-- The number that a digit stands for. -/
def value? (character : Char) : Option Nat :=
  if '0' ≤ character && character ≤ '9' then some (character.toNat - 48)
  else if 'a' ≤ character && character ≤ 'f' then some (character.toNat - 87)
  else if 'A' ≤ character && character ≤ 'F' then some (character.toNat - 55)
  else none

/-- The `width` lowest digits of a number, most significant first. -/
def fixed : Nat → Nat → List Char
  | 0, _ => []
  | width + 1, value => fixed width (value / 16) ++ [digit (value % 16)]

/-- A number without leading zeros. -/
def shortest (value : Nat) : List Char :=
  fixed (value.log2 / 4 + 1) value

/-- The number that a run of digits stands for. -/
def number? (digits : List Char) : Option Nat :=
  digits.foldl
    (fun sum character => do
      let high ← sum
      let low ← value? character
      pure (high * 16 + low))
    (some 0)

theorem value?_digit {value : Nat} (small : value < 16) : value? (digit value) = some value := by
  have all : ∀ place : Fin 16, value? (digit place) = some place.val := by decide
  exact all ⟨value, small⟩

theorem isSome_value?_of_mem_fixed {width value : Nat} {character : Char}
    (member : character ∈ fixed width value) : (value? character).isSome = true := by
  induction width generalizing value with
  | zero => cases member
  | succ width inductionHypothesis =>
      rw [fixed, List.mem_append, List.mem_singleton] at member
      rcases member with higher | rfl
      · exact inductionHypothesis higher
      · rw [value?_digit (Nat.mod_lt value (by decide))]
        rfl

/-- A number that fits the count of digits is read back. -/
theorem number?_fixed {width value : Nat} (small : value < Nat.pow 16 width) :
    number? (fixed width value) = some value := by
  induction width generalizing value with
  | zero =>
      obtain rfl : value = 0 := Nat.lt_one_iff.mp small
      rfl
  | succ width inductionHypothesis =>
      have higher : number? (fixed width (value / 16)) = some (value / 16) :=
        inductionHypothesis ((Nat.div_lt_iff_lt_mul (by decide)).mpr small)
      have joined : value / 16 * 16 + value % 16 = value := by omega
      rw [number?] at higher
      rw [number?, fixed, List.foldl_append, higher, List.foldl_cons, List.foldl_nil,
        value?_digit (Nat.mod_lt value (by decide))]
      exact congrArg some joined

end ProtoWire.Hex
