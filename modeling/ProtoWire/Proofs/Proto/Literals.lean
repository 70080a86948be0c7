import Mathlib.Data.Nat.Digits.Defs
import Mathlib.Tactic.Ring
import ProtoWire.Proofs.Proto.Guarantee
import ProtoWire.Proofs.Proto.Lexing

/-!
Contract: whole numbers of any length, written in one of three bases, and the number that the
parser takes each of them for. Decimal and hexadecimal literals are taken for their values. The
zero in front of an octal literal is taken for one of its digits, so that an octal literal is taken
for a decimal one.

Owns:
- literals, their texts and their values;
- the number that a literal is taken for, and when it is the value;
- literals as field numbers, as bounds of extension ranges and as numbers of enums.

Does not own: numbers that are no literals, such as digits of other scripts.
-/

namespace ProtoWire.Proto

/-! ### Literals -/

/-- The three ways of writing a number without a sign. -/
inductive Style where
  | decimal
  | octal
  | hexadecimal (capital : Bool)
deriving DecidableEq, Repr

namespace Style

def base : Style → Nat
  | .decimal => 10
  | .octal => 8
  | .hexadecimal _ => 16

/-- What stands in front of the digits. -/
def mark : Style → List Char
  | .decimal => []
  | .octal => ['0']
  | .hexadecimal false => ['0', 'x']
  | .hexadecimal true => ['0', 'X']

/-- The base in which the parser adds up the digits. It knows the marks of hexadecimal numbers
only. -/
def baseTaken : Style → Nat
  | .decimal => 10
  | .octal => 10
  | .hexadecimal _ => 16

end Style

/-- The number that a digit stands for, in either case. -/
def digitValue (digit : Char) : Nat :=
  (Hex.value? digit).getD 0

/-- A whole number as the grammar writes it. Only the number zero has a decimal literal that starts
with a zero. -/
structure Literal where
  negative : Bool
  style : Style
  /-- The digits behind the mark, most significant first. -/
  digits : List Char
  nonempty : digits ≠ []
  inBase : ∀ digit ∈ digits, ∃ place < style.base, Hex.value? digit = some place
  plain : style = .decimal → digits = ['0'] ∨ digits.head? ≠ some '0'

namespace Literal

def text (literal : Literal) : String :=
  String.ofList (signed literal.negative (literal.style.mark ++ literal.digits))

/-- The digits of a literal, added up in some base. -/
def magnitude (literal : Literal) (base : Nat) : Nat :=
  Nat.ofDigits base (literal.digits.map digitValue).reverse

/-- The digits of a literal, added up in some base, with the sign. -/
def number (literal : Literal) (base : Nat) : Int :=
  if literal.negative then -(literal.magnitude base : Int) else literal.magnitude base

/-- The number that a literal stands for. -/
def value (literal : Literal) : Int :=
  literal.number literal.style.base

/-- The number that the parser takes a literal for. -/
def taken (literal : Literal) : Int :=
  literal.number literal.style.baseTaken

end Literal

/-! ### Sums of digits -/

/-- Digits that are added up from the most significant one on. -/
theorem foldl_eq_ofDigits (base : Nat) (place : Char → Nat) (digits : List Char) (start : Nat) :
    digits.foldl (fun sum digit => sum * base + place digit) start =
      start * base ^ digits.length + Nat.ofDigits base (digits.map place).reverse := by
  induction digits generalizing start with
  | nil => simp
  | cons digit others inductionHypothesis =>
      rw [List.foldl_cons, inductionHypothesis, List.map_cons, Nat.ofDigits_reverse_cons,
        List.length_map, List.length_cons]
      ring

/-- In a larger base, digits add up to more, unless all but the last of them are zeros. -/
theorem ofDigits_eq_iff
    {small large : Nat}
    (less : small < large)
    (positive : 0 < small)
    {digits : List Nat}
    (inBase : ∀ digit ∈ digits, digit < small) :
    Nat.ofDigits large digits = Nat.ofDigits small digits ↔ Nat.ofDigits small digits < small := by
  induction digits with
  | nil => exact iff_of_true rfl positive
  | cons digit others inductionHypothesis =>
      obtain ⟨digitBound, othersBound⟩ := List.forall_mem_cons.mp inBase
      have same := inductionHypothesis othersBound
      have grows : Nat.ofDigits small others ≤ Nat.ofDigits large others :=
        Nat.ofDigits_monotone others (Nat.le_of_lt less)
      rw [Nat.ofDigits_cons, Nat.ofDigits_cons]
      -- Zeros count for nothing in either base, and all else counts for more in the larger one.
      rcases Nat.eq_zero_or_pos (Nat.ofDigits small others) with zero | more
      · have vanishes : Nat.ofDigits large others = 0 := by
          rw [same.mpr (by rwa [zero]), zero]
        rw [zero, vanishes]
        exact iff_of_true rfl digitBound
      · have step : small * Nat.ofDigits small others < large * Nat.ofDigits large others :=
          Nat.mul_lt_mul_of_lt_of_le less grows (Nat.lt_of_lt_of_le more grows)
        have above : small ≤ small * Nat.ofDigits small others :=
          Nat.le_mul_of_pos_right small more
        apply iff_of_false
        · intro equal
          omega
        · intro below
          omega

namespace Literal

variable {literal : Literal}

/-! ### Digits -/

/-- A digit that is below ten is a decimal one. -/
private theorem isDigit_of_value?
    {digit : Char}
    {place : Nat}
    (valued : Hex.value? digit = some place)
    (small : place < 10) :
    digit.isDigit = true ∧ digit.toNat - 48 = place := by
  unfold Hex.value? at valued
  split at valued
  · rename_i range
    exact ⟨range, Option.some.inj valued⟩
  · -- A letter stands for ten or more.
    exfalso
    split at valued
    · rename_i range
      simp only [Bool.and_eq_true, decide_eq_true_eq] at range
      have above : 97 ≤ digit.toNat := range.1
      have same : digit.toNat - 87 = place := Option.some.inj valued
      omega
    · split at valued
      · rename_i range
        simp only [Bool.and_eq_true, decide_eq_true_eq] at range
        have above : 65 ≤ digit.toNat := range.1
        have same : digit.toNat - 55 = place := Option.some.inj valued
        omega
      · cases valued

private theorem digitValue_lt {digit : Char} (member : digit ∈ literal.digits) :
    digitValue digit < literal.style.base := by
  obtain ⟨place, small, valued⟩ := literal.inBase digit member
  rwa [digitValue, valued]

private theorem isDigit_of_mem
    (small : literal.style.base ≤ 10)
    {digit : Char}
    (member : digit ∈ literal.digits) :
    digit.isDigit = true ∧ digit.toNat - 48 = digitValue digit := by
  obtain ⟨place, below, valued⟩ := literal.inBase digit member
  obtain ⟨isDigit, same⟩ := isDigit_of_value? valued (Nat.lt_of_lt_of_le below small)
  refine ⟨isDigit, ?_⟩
  rw [digitValue, valued, same]
  rfl

/-- Decimal and octal digits are added up in base 10. -/
private theorem foldl_decimal (small : literal.style.base ≤ 10) :
    literal.digits.foldl (fun sum digit => sum * 10 + (digit.toNat - 48)) 0 =
      literal.magnitude 10 := by
  have alike : literal.digits.map (fun digit => digit.toNat - 48) = literal.digits.map digitValue :=
    List.map_congr_left fun _ member => (isDigit_of_mem small member).2
  rw [foldl_eq_ofDigits 10 (fun digit => digit.toNat - 48), alike, Nat.zero_mul, Nat.zero_add,
    magnitude]

private theorem number?_eq
    {digits : List Char}
    (all : ∀ digit ∈ digits, Lexeme.isHexDigit digit = true) :
    Hex.number? digits = some (Nat.ofDigits 16 (digits.map digitValue).reverse) := by
  have fold (start : Nat) :
      digits.foldl
          (fun sum character => do
            let high ← sum
            let low ← Hex.value? character
            pure (high * 16 + low))
          (some start) =
        some (digits.foldl (fun sum digit => sum * 16 + digitValue digit) start) := by
    induction digits generalizing start with
    | nil => rfl
    | cons digit others inductionHypothesis =>
        obtain ⟨isDigit, later⟩ := List.forall_mem_cons.mp all
        obtain ⟨place, valued⟩ := Option.isSome_iff_exists.mp isDigit
        have next : digitValue digit = place := by rw [digitValue, valued]; rfl
        rw [List.foldl_cons, List.foldl_cons, next, ← inductionHypothesis later, valued]
        rfl
  rw [Hex.number?, fold, foldl_eq_ofDigits, Nat.zero_mul, Nat.zero_add]

/-- Hexadecimal digits behind a zero and a letter X stand for a number in base 16. -/
private theorem spells_hexadecimal
    {letter : Char}
    {digits : List Char}
    (marked : letter = 'x' ∨ letter = 'X')
    (nonempty : digits ≠ [])
    (all : ∀ digit ∈ digits, Lexeme.isHexDigit digit = true) :
    Spells ('0' :: letter :: digits) (Nat.ofDigits 16 (digits.map digitValue).reverse) where
  starts := ⟨'0', letter :: digits, rfl, rfl⟩
  cut := by
    intro rest ends
    obtain ⟨taken, dropped⟩ := takeWhile_endsWord all (by decide) ends
    have found : Lexeme.hexadecimal? ('0' :: letter :: (digits ++ rest)) =
        some ('0' :: letter :: digits, rest) := by
      rw [Lexeme.hexadecimal?, taken, dropped]
      refine if_pos ⟨marked, ?_, atWordEnd_of_endsWord ends⟩
      rwa [List.isEmpty_iff]
    change (Lexeme.hexadecimal? ('0' :: letter :: (digits ++ rest))).or _ = _
    rw [found, Option.some_or]
  tested := by
    rw [TokenClass.isMagnitude, if_pos marked, List.isEmpty_eq_false_iff.mpr nonempty,
      List.all_eq_true.mpr all]
    rfl
  valued := by
    have value : TokenClass.hexValue? digits =
        some (Nat.ofDigits 16 (digits.map digitValue).reverse) := by
      rw [TokenClass.hexValue?, List.isEmpty_eq_false_iff.mpr nonempty]
      exact number?_eq all
    rcases marked with rfl | rfl
    · exact value
    · exact value

/-- The mark and the digits of a literal are cut off, tested and valued as one number. -/
theorem spells (literal : Literal) :
    Spells (literal.style.mark ++ literal.digits) (literal.magnitude literal.style.baseTaken) := by
  have isDigit (small : literal.style.base ≤ 10) :
      ∀ digit ∈ literal.digits, digit.isDigit = true :=
    fun _ member => (isDigit_of_mem small member).1
  have isHexDigit : ∀ digit ∈ literal.digits, Lexeme.isHexDigit digit = true := by
    intro digit member
    obtain ⟨place, -, valued⟩ := literal.inBase digit member
    rw [Lexeme.isHexDigit, valued]
    rfl
  cases style : literal.style with
  | decimal =>
      have small : literal.style.base ≤ 10 := by rw [style]; decide
      have spells := spells_digits literal.nonempty (isDigit small)
      rwa [foldl_decimal small] at spells
  | octal =>
      have small : literal.style.base ≤ 10 := by rw [style]; decide
      have all : ∀ digit ∈ '0' :: literal.digits, digit.isDigit = true :=
        List.forall_mem_cons.mpr ⟨rfl, isDigit small⟩
      have spells := spells_digits (List.cons_ne_nil _ _) all
      have nothing : 0 * 10 + ('0'.toNat - 48) = 0 := rfl
      rwa [List.foldl_cons, nothing, foldl_decimal small] at spells
  | hexadecimal capital =>
      cases capital with
      | false => exact spells_hexadecimal (.inl rfl) literal.nonempty isHexDigit
      | true => exact spells_hexadecimal (.inr rfl) literal.nonempty isHexDigit

private theorem toList_text :
    literal.text.toList = signed literal.negative (literal.style.mark ++ literal.digits) :=
  String.toList_ofList

theorem isWord_text (literal : Literal) : IsWord literal.text :=
  literal.spells.isWord toList_text

theorem isInteger_text (literal : Literal) : TokenClass.isInteger literal.text = true :=
  literal.spells.isInteger toList_text

theorem integerValue?_text (literal : Literal) :
    TokenClass.integerValue? literal.text = some literal.taken :=
  literal.spells.integerValue? toList_text

theorem unsignedValue?_text (literal : Literal) :
    TokenClass.unsignedValue? literal.text =
      if 0 ≤ literal.taken ∧ literal.taken < 2 ^ 32 then some literal.taken.toNat else none := by
  rw [TokenClass.unsignedValue?, integerValue?_text]
  exact if_congr (and_congr_right' Int.lt_add_one_iff.symm) rfl rfl

theorem signedValue?_text (literal : Literal) :
    TokenClass.signedValue? literal.text =
      if -2 ^ 31 ≤ literal.taken ∧ literal.taken < 2 ^ 31 then some (Int32.ofInt literal.taken)
      else none := by
  rw [TokenClass.signedValue?, integerValue?_text]
  exact if_congr (and_congr_right' Int.lt_add_one_iff.symm) rfl rfl

private theorem natAbs_number (literal : Literal) (base : Nat) :
    (literal.number base).natAbs = literal.magnitude base := by
  rw [number]
  split
  · exact Int.natAbs_neg _
  · rfl

private theorem number_inj {base other : Nat} :
    literal.number base = literal.number other ↔
      literal.magnitude base = literal.magnitude other := by
  unfold number
  split <;> omega

/-- A literal is taken for its value, unless it is an octal one for eight or more. -/
theorem taken_eq_value (literal : Literal) :
    literal.taken = literal.value ↔ (literal.style = .octal → literal.value.natAbs < 8) := by
  rw [taken, value, number_inj, natAbs_number]
  cases style : literal.style with
  | decimal => exact iff_of_true rfl nofun
  | hexadecimal capital => exact iff_of_true rfl nofun
  | octal =>
      have inBase : ∀ digit ∈ (literal.digits.map digitValue).reverse, digit < 8 := by
        intro place member
        obtain ⟨digit, inside, rfl⟩ := List.mem_map.mp (List.mem_reverse.mp member)
        have below := digitValue_lt inside
        rwa [style] at below
      have same := ofDigits_eq_iff (by decide : 8 < 10) (by decide) inBase
      exact same.trans ⟨fun small _ => small, fun small => small rfl⟩

/-! ### Where literals stand -/

/-- A literal is one token, and wherever the grammar asks for a number it is taken for this one, or
refused at its position if the number is out of bounds. -/
structure ReadsAs (literal : Literal) (number : Int) : Prop where
  word : IsWord literal.text
  /-- In the place of a field number, or of any bound of an extension range. -/
  fieldNumber : ∀ stream : TokenStream, stream.current.text = literal.text →
    Parser.fieldNumber stream =
      if 0 ≤ number ∧ number < 2 ^ 32 then .ok (number.toNat, stream.advance)
      else .error ⟨.invalidFieldNumber literal.text, stream.current.position⟩
  /-- As the only bound of an extension range. -/
  singleBound : ∀ stream : TokenStream, stream.current.text = literal.text →
    stream.advance.current.text ≠ "to" →
    Parser.extensionRange stream =
      if 0 ≤ number ∧ number < 2 ^ 32 then .ok (⟨number.toNat, number.toNat⟩, stream.advance)
      else .error ⟨.invalidFieldNumber literal.text, stream.current.position⟩
  /-- As the last bound of an extension range, behind any first one. -/
  lastBound : ∀ (stream : TokenStream) (start : Nat),
    Parser.fieldNumber stream = .ok (start, stream.advance) →
    stream.advance.current.text = "to" →
    stream.advance.advance.current.text = literal.text →
    Parser.extensionRange stream =
      if 0 ≤ number ∧ number < 2 ^ 32 then
        .ok (⟨start, number.toNat⟩, stream.advance.advance.advance)
      else .error ⟨.invalidFieldNumber literal.text, stream.advance.advance.current.position⟩
  /-- As the number of a name in an enum, whose options follow. -/
  enumValue : ∀ stream : TokenStream, TokenClass.isIdentifier stream.current.text = true →
    stream.advance.current.text = "=" →
    stream.advance.advance.current.text = literal.text →
    Parser.enumValue stream =
      if -2 ^ 31 ≤ number ∧ number < 2 ^ 31 then
        (do
          let _ ← Parser.fieldOptions
          Parser.expectSymbol ";"
          pure ⟨stream.current.text, stream.current.position, Int32.ofInt number⟩ :
            Parser EnumValueDecl) stream.advance.advance.advance
      else .error ⟨.invalidInteger literal.text, stream.advance.advance.current.position⟩

section Places

open ProtoWire.Proto.Parser

variable {stream : TokenStream}

private theorem expect_integer (current : stream.current.text = literal.text) :
    expect TokenClass.isInteger "integer" stream = .ok (stream.current, stream.advance) := by
  refine if_pos ?_
  rw [current]
  exact literal.isInteger_text

private theorem fieldNumber_text (current : stream.current.text = literal.text) :
    Parser.fieldNumber stream =
      if 0 ≤ literal.taken ∧ literal.taken < 2 ^ 32 then
        .ok (literal.taken.toNat, stream.advance)
      else .error ⟨.invalidFieldNumber literal.text, stream.current.position⟩ := by
  rw [Parser.fieldNumber, bind_ok (expect_integer current), current, unsignedValue?_text]
  split <;> rfl

private theorem extensionRange_alone
    (current : stream.current.text = literal.text)
    (alone : stream.advance.current.text ≠ "to") :
    extensionRange stream =
      if 0 ≤ literal.taken ∧ literal.taken < 2 ^ 32 then
        .ok (⟨literal.taken.toNat, literal.taken.toNat⟩, stream.advance)
      else .error ⟨.invalidFieldNumber literal.text, stream.current.position⟩ := by
  have start := fieldNumber_text current
  have noWord : acceptWord "to" stream.advance = .ok (false, stream.advance) :=
    if_neg fun same => alone (beq_iff_eq.mp same)
  rw [extensionRange]
  by_cases range : 0 ≤ literal.taken ∧ literal.taken < 2 ^ 32
  · rw [if_pos range] at start ⊢
    rw [bind_ok start, bind_ok noWord]
    rfl
  · rw [if_neg range] at start ⊢
    exact bind_error start

private theorem extensionRange_behind
    {start : Nat}
    (first : Parser.fieldNumber stream = .ok (start, stream.advance))
    (more : stream.advance.current.text = "to")
    (current : stream.advance.advance.current.text = literal.text) :
    extensionRange stream =
      if 0 ≤ literal.taken ∧ literal.taken < 2 ^ 32 then
        .ok (⟨start, literal.taken.toNat⟩, stream.advance.advance.advance)
      else .error ⟨.invalidFieldNumber literal.text, stream.advance.advance.current.position⟩ := by
  have stop := fieldNumber_text current
  have word : acceptWord "to" stream.advance = .ok (true, stream.advance.advance) :=
    if_pos (beq_iff_eq.mpr more)
  have noWord : acceptWord "max" stream.advance.advance = .ok (false, stream.advance.advance) := by
    refine if_neg fun same => ?_
    have number := literal.isInteger_text
    rw [← current, beq_iff_eq.mp same] at number
    exact absurd number (by decide)
  rw [extensionRange, bind_ok first, bind_ok word]
  change (acceptWord "max" >>= _) _ = _
  rw [bind_ok noWord]
  change (Parser.fieldNumber >>= _) _ = _
  by_cases range : 0 ≤ literal.taken ∧ literal.taken < 2 ^ 32
  · rw [if_pos range] at stop ⊢
    exact bind_ok stop
  · rw [if_neg range] at stop ⊢
    exact bind_error stop

private theorem enumValue_text
    (name : TokenClass.isIdentifier stream.current.text = true)
    (equals : stream.advance.current.text = "=")
    (current : stream.advance.advance.current.text = literal.text) :
    Parser.enumValue stream =
      if -2 ^ 31 ≤ literal.taken ∧ literal.taken < 2 ^ 31 then
        (do
          let _ ← fieldOptions
          expectSymbol ";"
          pure ⟨stream.current.text, stream.current.position, Int32.ofInt literal.taken⟩ :
            Parser EnumValueDecl) stream.advance.advance.advance
      else .error ⟨.invalidInteger literal.text, stream.advance.advance.current.position⟩ := by
  have identifier : expectIdentifier stream = .ok (stream.current, stream.advance) := if_pos name
  have accepted : expect (· == "=") "\"=\"" stream.advance =
      .ok (stream.advance.current, stream.advance.advance) := if_pos (beq_iff_eq.mpr equals)
  have symbol : expectSymbol "=" stream.advance = .ok ((), stream.advance.advance) := by
    rw [expectSymbol]
    exact bind_ok accepted
  rw [Parser.enumValue, bind_ok identifier, bind_ok symbol, bind_ok (expect_integer current),
    current, signedValue?_text]
  split <;> rfl

end Places

theorem readsAs_taken (literal : Literal) : literal.ReadsAs literal.taken where
  word := literal.isWord_text
  fieldNumber := fun _ current => fieldNumber_text current
  singleBound := fun _ current alone => extensionRange_alone current alone
  lastBound := fun _ _ first more current => extensionRange_behind first more current
  enumValue := fun _ name equals current => enumValue_text name equals current

/-- Every literal is taken for one number wherever it stands, and the number is its value unless it
is an octal literal for eight or more. -/
theorem literal_readsAs (literal : Literal) :
    literal.ReadsAs literal.taken ∧
      (literal.taken = literal.value ↔ (literal.style = .octal → literal.value.natAbs < 8)) :=
  ⟨literal.readsAs_taken, literal.taken_eq_value⟩

/-- The number eight in base 8. -/
def octalEight : Literal where
  negative := false
  style := .octal
  digits := ['1', '0']
  nonempty := List.cons_ne_nil _ _
  inBase := List.forall_mem_cons.mpr
    ⟨⟨1, by decide, rfl⟩, List.forall_mem_singleton.mpr ⟨0, by decide, rfl⟩⟩
  plain := nofun

/-- An octal literal is accepted, and taken for a number that it does not stand for. -/
theorem octal_taken_for_decimal :
    octalEight.text = "010" ∧ octalEight.value = 8 ∧ ¬ octalEight.ReadsAs octalEight.value ∧
      (FileDecl.parse "enum E \x7b A = 010; \x7d").toOption.map
          (fun file => file.enums.flatMap fun enum => enum.values.map EnumValueDecl.number) =
        some [10] := by
  have eight : octalEight.value = 8 := by decide
  refine ⟨by decide, eight, fun reads => ?_, by decide +kernel⟩
  rw [eight] at reads
  have expected := reads.fieldNumber ⟨⟨"010", .first⟩, []⟩ (by decide)
  exact absurd expected (by decide)

end Literal

end ProtoWire.Proto
