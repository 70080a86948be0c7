import ProtoWire.Proto.Lexer
import ProtoWire.Proto.TokenClass

/-!
Contract: texts that are cut into the words that they were put together from. A word is read back
if a blank or the end of the text is behind it.

Owns:
- names, integers and symbols as words;
- the tokens of words that are joined by blanks.

Does not own: what is declared in these words.
-/

namespace ProtoWire.Proto

/-- The end of a text, or a text that starts with a blank. -/
def EndsWord (rest : List Char) : Prop :=
  rest = [] ∨ ∃ more, rest = ' ' :: more

/-- A text that is one token if a blank or the end of the text is behind it. -/
structure IsWord (word : String) : Prop where
  solid : ∃ first others, word.toList = first :: others ∧ Text.isBlank first = false
  lexeme : ∃ kind, Lexeme.isToken ⟨kind, word.toList⟩ = true ∧
    ∀ rest, EndsWord rest →
      Lexeme.next? (word.toList ++ rest) = some (⟨kind, word.toList⟩, rest)

namespace Lexeme

/-! ### Characters -/

theorem isNamePart_of_isNameStart {character : Char} (start : isNameStart character = true) :
    isNamePart character = true := by
  simp only [isNameStart, isNamePart, Char.isAlphanum, Bool.or_eq_true] at start ⊢
  rcases start with letter | underscore
  · exact .inl (.inl letter)
  · exact .inr underscore

theorem toNat_of_isNameStart {character : Char} (start : isNameStart character = true) :
    65 ≤ character.toNat ∧ character.toNat ≤ 122 := by
  change (decide ('A'.val ≤ character.val ∧ character.val ≤ 'Z'.val) ||
    (decide ('a'.val ≤ character.val) && decide (character.val ≤ 'z'.val)) ||
      character == '_') = true at start
  simp only [Bool.or_eq_true, decide_eq_true_eq, Bool.and_eq_true, beq_iff_eq] at start
  rcases start with (⟨above, below⟩ | ⟨above, below⟩) | rfl
  · have above : 65 ≤ character.toNat := above
    have below : character.toNat ≤ 90 := below
    omega
  · have above : 97 ≤ character.toNat := above
    have below : character.toNat ≤ 122 := below
    omega
  · decide

theorem toNat_of_isDigit {character : Char} (digit : character.isDigit = true) :
    48 ≤ character.toNat ∧ character.toNat ≤ 57 :=
  Char.isDigit_iff_toNat.mp digit

/-- The digits of other scripts are outside of ASCII. -/
private theorem not_foreignDigit {character : Char} (small : character.toNat < 128) :
    Text.foreignDigitRanges.contains character = false := by
  have above : ∀ range ∈ Text.foreignDigitRanges, 128 ≤ range.1 := by decide
  rw [CodePointRanges.contains, List.any_eq_false]
  intro range member inside
  have first := above range member
  simp only [Bool.and_eq_true, decide_eq_true_eq] at inside
  omega

private theorem not_isAnyDigit {character : Char} (small : character.toNat < 128)
    (outside : character.toNat < 48 ∨ 57 < character.toNat) :
    Text.isAnyDigit character = false := by
  rw [Text.isAnyDigit, not_foreignDigit small, Bool.or_false, Bool.eq_false_iff]
  intro digit
  have range := toNat_of_isDigit digit
  omega

private theorem not_isBlank {character : Char} (above : 33 ≤ character.toNat)
    (small : character.toNat < 128) : Text.isBlank character = false := by
  have gap : ∀ range ∈ Text.blankRanges, range.2 ≤ 32 ∨ 128 ≤ range.1 := by decide
  rw [Text.isBlank, CodePointRanges.contains, List.any_eq_false]
  intro range member inside
  have outside := gap range member
  simp only [Bool.and_eq_true, decide_eq_true_eq] at inside
  omega

/-! ### Classes by their first character -/

private theorem comment?_eq_none {first : Char} (others : List Char) (different : first ≠ '/') :
    comment? (first :: others) = none := by
  unfold comment?
  split
  · rename_i same
    exact absurd (List.cons.inj same).1 different
  · rename_i same
    exact absurd (List.cons.inj same).1 different
  · rfl

private theorem quoted?_eq_none
    {first : Char}
    (others : List Char)
    (noDouble : first ≠ '"')
    (noSingle : first ≠ '\'') :
    quoted? (first :: others) = none := by
  unfold quoted?
  split
  · rename_i same
    exact absurd (List.cons.inj same).1 noDouble
  · rename_i same
    exact absurd (List.cons.inj same).1 noSingle
  · rfl

private theorem hexadecimal?_eq_none
    {first : Char}
    (others : List Char)
    (different : first ≠ '0') :
    hexadecimal? (first :: others) = none := by
  unfold hexadecimal?
  split
  · rename_i same
    exact absurd (List.cons.inj same).1 different
  · rfl

private theorem number?_eq_none
    {first : Char}
    (others : List Char)
    (noSign : first ≠ '-')
    (noDigit : Text.isAnyDigit first = false) :
    number? (first :: others) = none := by
  have noZero : first ≠ '0' := by
    rintro rfl
    exact absurd noDigit (by decide)
  unfold number?
  split
  · rename_i same
    exact absurd (List.cons.inj same).1 noSign
  · rw [unsigned?, hexadecimal?_eq_none others noZero, decimal?, digits?, List.takeWhile_cons,
      noDigit]
    rfl

/-! ### Names -/

private theorem nameTail_of_endsWord {rest : List Char} (ends : EndsWord rest) :
    nameTail rest = ([], rest) := by
  rcases ends with rfl | ⟨more, rfl⟩
  · rfl
  · have blank : ¬ (isNamePart ' ' || (' ' == '.' && startsName more)) = true := nofun
    rw [nameTail, if_neg blank]

/-- Names that are joined by points are read up to their end. -/
private theorem nameTail_of_namesGoOn
    {rest : List Char}
    (ends : EndsWord rest)
    {fresh : Bool}
    {text : List Char}
    (names : TokenClass.namesGoOn fresh text = true) :
    nameTail (text ++ rest) = (text, rest) ∧ (fresh = true → startsName (text ++ rest) = true) := by
  induction text generalizing fresh with
  | nil =>
      refine ⟨nameTail_of_endsWord ends, ?_⟩
      rintro rfl
      cases names
  | cons character others inductionHypothesis =>
      have goesOn (part : (isNamePart character ||
          (character == '.' && startsName (others ++ rest))) = true)
          (tail : nameTail (others ++ rest) = (others, rest)) :
          nameTail (character :: others ++ rest) = (character :: others, rest) := by
        rw [List.cons_append, nameTail, if_pos part, tail]
      cases fresh with
      | true =>
          obtain ⟨start, later⟩ : isNameStart character = true ∧
              TokenClass.namesGoOn false others = true := by
            simpa [TokenClass.namesGoOn] using names
          obtain ⟨tail, -⟩ := inductionHypothesis later
          refine ⟨goesOn ?_ tail, fun _ => start⟩
          rw [isNamePart_of_isNameStart start, Bool.true_or]
      | false =>
          refine ⟨?_, nofun⟩
          by_cases point : character = '.'
          · have later : TokenClass.namesGoOn true others = true := by
              simpa [TokenClass.namesGoOn, point] using names
            obtain ⟨tail, starts⟩ := inductionHypothesis later
            refine goesOn ?_ tail
            rw [point, starts rfl]
            rfl
          · obtain ⟨part, later⟩ : isNamePart character = true ∧
                TokenClass.namesGoOn false others = true := by
              simpa [TokenClass.namesGoOn, point] using names
            obtain ⟨tail, -⟩ := inductionHypothesis later
            refine goesOn ?_ tail
            rw [part, Bool.true_or]

/-- A type name is its first character, which starts a name or is a point before a name, and names
that go on behind it. -/
private theorem exists_of_isTypeName {word : String} (name : TokenClass.isTypeName word = true) :
    ∃ first others, word.toList = first :: others ∧
      ((isNameStart first = true ∧ TokenClass.namesGoOn false others = true) ∨
        (first = '.' ∧ TokenClass.namesGoOn true others = true)) := by
  unfold TokenClass.isTypeName at name
  split at name
  · rename_i rest same
    exact ⟨'.', rest, same, .inr ⟨rfl, name⟩⟩
  · cases same : word.toList with
    | nil =>
        rw [same] at name
        cases name
    | cons first others =>
        rw [same] at name
        refine ⟨first, others, rfl, .inl ?_⟩
        simpa [TokenClass.namesGoOn] using name

end Lexeme

open Lexeme

theorem isWord_of_isTypeName {word : String} (name : TokenClass.isTypeName word = true) :
    IsWord word := by
  obtain ⟨first, others, same, parts⟩ := exists_of_isTypeName name
  have code : first.toNat = 46 ∨ (65 ≤ first.toNat ∧ first.toNat ≤ 122) := by
    rcases parts with ⟨start, -⟩ | ⟨rfl, -⟩
    · exact .inr (toNat_of_isNameStart start)
    · exact .inl rfl
  have apart (other : Char)
      (outside : other.toNat ≠ 46 ∧ ¬ (65 ≤ other.toNat ∧ other.toNat ≤ 122)) :
      first ≠ other := by
    rintro rfl
    exact code.elim outside.1 outside.2
  have noDigit : Text.isAnyDigit first = false := not_isAnyDigit (by omega) (by omega)
  refine ⟨⟨first, others, same, not_isBlank (by omega) (by omega)⟩, .name, rfl, ?_⟩
  intro rest ends
  have cut : name? (first :: (others ++ rest)) = some (first :: others, rest) := by
    rcases parts with ⟨start, later⟩ | ⟨rfl, later⟩
    · have tail := (nameTail_of_namesGoOn ends later).1
      rw [name?, start, Bool.true_or, if_pos rfl, tail]
    · obtain ⟨tail, starts⟩ := nameTail_of_namesGoOn ends later
      rw [name?, starts rfl, if_pos (by decide), tail]
  rw [same, List.cons_append]
  simp only [next?, kinds, List.findSome?_cons, splitter, cut,
    comment?_eq_none _ (apart '/' (by decide)),
    quoted?_eq_none _ (apart '"' (by decide)) (apart '\'' (by decide)),
    number?_eq_none _ (apart '-' (by decide)) noDigit, Option.map_none, Option.map_some]

private theorem namesGoOn_of_all {text : List Char} (parts : text.all isNamePart = true) :
    TokenClass.namesGoOn false text = true := by
  induction text with
  | nil => rfl
  | cons character others inductionHypothesis =>
      obtain ⟨part, later⟩ : isNamePart character = true ∧ others.all isNamePart = true := by
        simpa using parts
      have noPoint : character ≠ '.' := by
        rintro rfl
        exact absurd part (by decide)
      simp [TokenClass.namesGoOn, noPoint, part, inductionHypothesis later]

theorem isTypeName_of_isIdentifier {word : String} (name : TokenClass.isIdentifier word = true) :
    TokenClass.isTypeName word = true := by
  unfold TokenClass.isIdentifier at name
  unfold TokenClass.isTypeName
  split at name
  · cases name
  · rename_i first others same
    obtain ⟨start, parts⟩ := Bool.and_eq_true_iff.mp name
    rw [same]
    split
    · rename_i rest point
      obtain ⟨rfl, -⟩ := List.cons.inj point
      exact absurd start (by decide)
    · rw [TokenClass.namesGoOn, if_pos rfl, start, namesGoOn_of_all parts]
      rfl

/-- Names that are joined by points start with no point. -/
theorem dropWhile_of_namesGoOn {characters : List Char}
    (names : TokenClass.namesGoOn true characters = true) :
    characters.dropWhile (· == '.') = characters := by
  cases characters with
  | nil => rfl
  | cons first others =>
      have noPoint : first ≠ '.' := by
        rintro rfl
        cases names
      rw [List.dropWhile_cons, beq_false_of_ne noPoint]
      rfl

theorem isTypeName_of_namesGoOn {word : String}
    (names : TokenClass.namesGoOn true word.toList = true) :
    TokenClass.isTypeName word = true := by
  unfold TokenClass.isTypeName
  split
  · rename_i rest point
    rw [point] at names
    cases names
  · exact names

/-- A type name without the point in front of it. -/
theorem namesGoOn_dropWhile {word : String} (name : TokenClass.isTypeName word = true) :
    TokenClass.namesGoOn true (word.toList.dropWhile (· == '.')) = true := by
  obtain ⟨first, others, same, ⟨start, later⟩ | ⟨rfl, later⟩⟩ := exists_of_isTypeName name
  · have names : TokenClass.namesGoOn true word.toList = true := by
      rw [same, TokenClass.namesGoOn, if_pos rfl, start, later]
      rfl
    rw [dropWhile_of_namesGoOn names]
    exact names
  · rw [same, List.dropWhile_cons, if_pos (beq_self_eq_true '.'), dropWhile_of_namesGoOn later]
    exact later

theorem isWord_of_isIdentifier {word : String} (name : TokenClass.isIdentifier word = true) :
    IsWord word :=
  isWord_of_isTypeName (isTypeName_of_isIdentifier name)

/-- No name is an integer. -/
theorem isInteger_of_isIdentifier {word : String} (name : TokenClass.isIdentifier word = true) :
    TokenClass.isInteger word = false := by
  unfold TokenClass.isIdentifier at name
  split at name
  · cases name
  · rename_i first others same
    have start := (Bool.and_eq_true_iff.mp name).1
    obtain ⟨above, below⟩ := toNat_of_isNameStart start
    have noDigit : Text.isAnyDigit first = false := not_isAnyDigit (by omega) (by omega)
    rw [TokenClass.isInteger, same]
    split
    · rename_i rest sign
      obtain ⟨rfl, -⟩ := List.cons.inj sign
      exact absurd start (by decide)
    · unfold TokenClass.isMagnitude
      split
      · rename_i letter rest zero
        obtain ⟨rfl, -⟩ := List.cons.inj zero
        exact absurd start (by decide)
      · rw [List.all_cons, noDigit, Bool.false_and, Bool.and_false]

/-! ### Symbols -/

/-- The symbols of the canonical text. -/
def symbols : List String :=
  ["=", ";", "\x7b", "\x7d", "[", "]", "<", ">", ","]

theorem isWord_of_mem_symbols {word : String} (symbol : word ∈ symbols) : IsWord word := by
  simp only [symbols, List.mem_cons, List.not_mem_nil, or_false] at symbol
  rcases symbol with rfl | rfl | rfl | rfl | rfl | rfl | rfl | rfl | rfl
  all_goals exact ⟨⟨_, [], rfl, rfl⟩, .symbol, rfl, fun rest _ => rfl⟩

/-! ### Integers -/

/-- Characters that are cut off, tested and valued as one number without a sign. -/
structure Spells (characters : List Char) (number : Nat) : Prop where
  starts : ∃ first others, characters = first :: others ∧ first.isDigit = true
  cut : ∀ rest, EndsWord rest → unsigned? (characters ++ rest) = some (characters, rest)
  tested : TokenClass.isMagnitude characters = true
  valued : TokenClass.magnitudeValue? characters = some number

/-- Characters of one class are taken up to the first character of another class. -/
theorem takeWhile_exact
    {test : Char → Bool}
    {text behind : List Char}
    (inside : ∀ character ∈ text, test character = true)
    (stops : ∀ next more, behind = next :: more → test next = false) :
    (text ++ behind).takeWhile test = text ∧ (text ++ behind).dropWhile test = behind := by
  have none : behind.takeWhile test = [] ∧ behind.dropWhile test = behind := by
    cases behind with
    | nil => exact ⟨rfl, rfl⟩
    | cons next more => simp [stops next more rfl]
  rw [List.takeWhile_append_of_pos inside, List.dropWhile_append_of_pos inside, none.1, none.2]
  exact ⟨List.append_nil text, rfl⟩

/-- Characters of one class are taken up to the end of their word. -/
theorem takeWhile_endsWord
    {test : Char → Bool}
    {characters rest : List Char}
    (all : ∀ character ∈ characters, test character = true)
    (blank : test ' ' = false)
    (ends : EndsWord rest) :
    (characters ++ rest).takeWhile test = characters ∧
      (characters ++ rest).dropWhile test = rest := by
  refine takeWhile_exact all fun next more same => ?_
  rcases ends with rfl | ⟨others, rfl⟩
  · cases same
  · rw [← (List.cons.inj same).1, blank]

theorem atWordEnd_of_endsWord {rest : List Char} (ends : EndsWord rest) :
    atWordEnd rest = true := by
  rcases ends with rfl | ⟨more, rfl⟩ <;> rfl

section Digits

variable {digits rest : List Char}

private theorem isAnyDigit_of_isDigit
    (all : ∀ digit ∈ digits, digit.isDigit = true) :
    ∀ digit ∈ digits, Text.isAnyDigit digit = true := by
  intro digit member
  rw [Text.isAnyDigit, all digit member, Bool.true_or]

/-- No letter stands among digits, so that they are no hexadecimal number. -/
private theorem no_letter
    (all : ∀ digit ∈ digits, digit.isDigit = true)
    (ends : EndsWord rest)
    {letter : Char}
    {more : List Char}
    (same : digits ++ rest = letter :: more) :
    ¬ (letter = 'x' ∨ letter = 'X') := by
  have plain : letter.isDigit = true ∨ letter = ' ' := by
    cases digits with
    | nil =>
        obtain rfl | ⟨others, rfl⟩ := ends
        · cases same
        · exact .inr (List.cons.inj same).1.symm
    | cons digit others =>
        obtain ⟨rfl, -⟩ := List.cons.inj same
        exact .inl (all digit List.mem_cons_self)
  rintro (rfl | rfl)
  · exact absurd plain (by decide)
  · exact absurd plain (by decide)

private theorem no_letter_second
    {first letter : Char}
    {more : List Char}
    (all : ∀ digit ∈ first :: letter :: more, digit.isDigit = true) :
    ¬ (letter = 'x' ∨ letter = 'X') :=
  no_letter (fun digit member => all digit (List.mem_cons_of_mem _ member)) (.inl rfl)
    (List.append_nil _)

private theorem unsigned?_digits
    (nonempty : digits ≠ [])
    (all : ∀ digit ∈ digits, digit.isDigit = true)
    (ends : EndsWord rest) :
    unsigned? (digits ++ rest) = some (digits, rest) := by
  obtain ⟨first, others, rfl⟩ := List.exists_cons_of_ne_nil nonempty
  obtain ⟨taken, dropped⟩ :=
    takeWhile_endsWord (isAnyDigit_of_isDigit all) (by decide) ends
  have noHexadecimal : hexadecimal? (first :: others ++ rest) = none := by
    unfold hexadecimal?
    split
    · rename_i letter more same
      have later : ∀ digit ∈ others, digit.isDigit = true := fun digit member =>
        all digit (List.mem_cons_of_mem _ member)
      exact if_neg fun found => no_letter later ends (List.cons.inj same).2 found.1
    · rfl
  have noFraction : fraction? rest = none := by
    rcases ends with rfl | ⟨more, rfl⟩ <;> rfl
  have noExponent : exponent? rest = none := by
    rcases ends with rfl | ⟨more, rfl⟩ <;> rfl
  have noDigits : (first :: others).isEmpty = false := rfl
  rw [unsigned?, noHexadecimal, Option.none_or, decimal?, digits?, taken, dropped, noDigits]
  simp [Lexeme.optional, noFraction, noExponent, atWordEnd_of_endsWord ends]

private theorem isMagnitude_digits
    (nonempty : digits ≠ [])
    (all : ∀ digit ∈ digits, digit.isDigit = true) :
    TokenClass.isMagnitude digits = true := by
  have any : digits.all Text.isAnyDigit = true :=
    List.all_eq_true.mpr (isAnyDigit_of_isDigit all)
  unfold TokenClass.isMagnitude
  split
  · rw [if_neg (no_letter_second all), any]
  · rw [any, Bool.and_true, Bool.not_eq_true', List.isEmpty_eq_false_iff]
    exact nonempty

private theorem magnitudeValue?_digits
    (nonempty : digits ≠ [])
    (all : ∀ digit ∈ digits, digit.isDigit = true) :
    TokenClass.magnitudeValue? digits =
      some (digits.foldl (fun sum digit => sum * 10 + (digit.toNat - 48)) 0) := by
  unfold TokenClass.magnitudeValue?
  split
  · exact absurd (.inl rfl) (no_letter_second all)
  · exact absurd (.inr rfl) (no_letter_second all)
  · rw [TokenClass.decimalValue?, List.isEmpty_eq_false_iff.mpr nonempty,
      List.all_eq_true.mpr all]
    rfl

/-- Digits stand for a number in base 10, also behind zeros. -/
theorem spells_digits
    (nonempty : digits ≠ [])
    (all : ∀ digit ∈ digits, digit.isDigit = true) :
    Spells digits (digits.foldl (fun sum digit => sum * 10 + (digit.toNat - 48)) 0) where
  starts := by
    obtain ⟨first, others, rfl⟩ := List.exists_cons_of_ne_nil nonempty
    exact ⟨first, others, rfl, all first List.mem_cons_self⟩
  cut := fun _ ends => unsigned?_digits nonempty all ends
  tested := isMagnitude_digits nonempty all
  valued := magnitudeValue?_digits nonempty all

theorem spells_decimal (number : Nat) : Spells (Nat.toDigits 10 number) number := by
  have all : ∀ digit ∈ Nat.toDigits 10 number, digit.isDigit = true := fun _ member =>
    Nat.isDigit_of_mem_toDigits (by decide) (by decide) member
  have sum : (Nat.toDigits 10 number).foldl (fun sum digit => sum * 10 + (digit.toNat - 48)) 0 =
      number := by
    have known : Nat.ofDigitChars 10 (Nat.toDigits 10 number) 0 = number :=
      Nat.ofDigitChars_ten_toDigits
    rw [Nat.ofDigitChars_eq_foldl] at known
    simp only [Nat.mul_comm 10] at known
    exact known
  have spells := spells_digits Nat.toDigits_ne_nil all
  rwa [sum] at spells

end Digits

/-- Characters behind a minus sign, if there is one. -/
def signed (negative : Bool) (characters : List Char) : List Char :=
  if negative then '-' :: characters else characters

private theorem next?_number
    {first : Char}
    {others taken rest : List Char}
    (code : first.toNat = 45 ∨ 48 ≤ first.toNat)
    (cut : number? (first :: others) = some (taken, rest)) :
    next? (first :: others) = some (⟨.number, taken⟩, rest) := by
  have apart (other : Char) (outside : other.toNat ≠ 45 ∧ ¬ 48 ≤ other.toNat) : first ≠ other := by
    rintro rfl
    exact code.elim outside.1 outside.2
  simp only [next?, kinds, List.findSome?_cons, splitter, cut,
    comment?_eq_none _ (apart '/' (by decide)),
    quoted?_eq_none _ (apart '"' (by decide)) (apart '\'' (by decide)),
    Option.map_none, Option.map_some]

section Signed

variable {word : String} {negative : Bool} {characters : List Char} {number : Nat}

/-- A digit in front is no sign. -/
private theorem Spells.ne_signed (spells : Spells characters number) (rest : List Char) :
    characters ≠ '-' :: rest := by
  obtain ⟨first, others, rfl, digit⟩ := spells.starts
  intro same
  obtain ⟨rfl, -⟩ := List.cons.inj same
  cases digit

theorem Spells.isWord
    (spells : Spells characters number)
    (same : word.toList = signed negative characters) :
    IsWord word := by
  cases negative with
  | true =>
      refine ⟨⟨'-', characters, same, by decide⟩, .number, rfl, fun rest ends => ?_⟩
      rw [same]
      refine next?_number (.inl rfl) ?_
      change (unsigned? (characters ++ rest)).after ['-'] = _
      rw [spells.cut rest ends]
      rfl
  | false =>
      obtain ⟨first, others, rfl, digit⟩ := spells.starts
      obtain ⟨above, below⟩ := toNat_of_isDigit digit
      refine ⟨⟨first, others, same, not_isBlank (by omega) (by omega)⟩, .number, rfl,
        fun rest ends => ?_⟩
      rw [same]
      refine next?_number (.inr above) ?_
      unfold number?
      split
      · rename_i behind sign
        obtain ⟨rfl, -⟩ := List.cons.inj sign
        exact absurd rfl (spells.ne_signed others)
      · exact spells.cut rest ends

theorem Spells.isInteger
    (spells : Spells characters number)
    (same : word.toList = signed negative characters) :
    TokenClass.isInteger word = true := by
  rw [TokenClass.isInteger, same]
  cases negative with
  | true => exact spells.tested
  | false =>
      rw [show signed false characters = characters from rfl]
      split
      · exact absurd rfl (spells.ne_signed _)
      · exact spells.tested

theorem Spells.integerValue?
    (spells : Spells characters number)
    (same : word.toList = signed negative characters) :
    TokenClass.integerValue? word = some (if negative then -(number : Int) else number) := by
  rw [TokenClass.integerValue?, same]
  cases negative with
  | true => exact congrArg (Option.map _) spells.valued
  | false =>
      rw [show signed false characters = characters from rfl]
      split
      · exact absurd rfl (spells.ne_signed _)
      · exact congrArg (Option.map _) spells.valued

end Signed

/-- The digits of an integer stand behind its sign, if it has one. -/
private theorem exists_toList_toString (value : Int) :
    ∃ negative, (toString value).toList = signed negative (Nat.toDigits 10 value.natAbs) ∧
      (if negative then -(value.natAbs : Int) else value.natAbs) = value := by
  rw [Int.toString_eq_repr, Int.repr_eq_if]
  split
  · rename_i positive
    have same : value.toNat = value.natAbs := by omega
    refine ⟨false, ?_, Int.natAbs_of_nonneg positive⟩
    rw [Nat.toList_repr, same]
    rfl
  · rename_i negative
    have same : (-value).toNat = value.natAbs := by omega
    have opposite : -(value.natAbs : Int) = value := by omega
    refine ⟨true, ?_, opposite⟩
    rw [String.toList_append, Nat.toList_repr, same]
    rfl

private theorem toString_natCast (number : Nat) : toString (number : Int) = toString number := by
  rw [Int.toString_eq_repr, Int.repr_eq_if, if_pos (Int.natCast_nonneg number), Int.toNat_natCast]
  rfl

theorem isWord_toString (value : Int) : IsWord (toString value) := by
  obtain ⟨negative, same, -⟩ := exists_toList_toString value
  exact (spells_decimal value.natAbs).isWord same

theorem isWord_decimal (number : Nat) : IsWord (toString number) := by
  rw [← toString_natCast]
  exact isWord_toString number

theorem isInteger_toString (value : Int) : TokenClass.isInteger (toString value) = true := by
  obtain ⟨negative, same, -⟩ := exists_toList_toString value
  exact (spells_decimal value.natAbs).isInteger same

theorem isInteger_decimal (number : Nat) : TokenClass.isInteger (toString number) = true := by
  rw [← toString_natCast]
  exact isInteger_toString number

theorem integerValue?_toString (value : Int) :
    TokenClass.integerValue? (toString value) = some value := by
  obtain ⟨negative, same, number⟩ := exists_toList_toString value
  rw [(spells_decimal value.natAbs).integerValue? same, number]

theorem unsignedValue?_toString {number : Nat} (small : number ≤ WordRange.maxUInt32) :
    TokenClass.unsignedValue? (toString number) = some number := by
  have fits : 0 ≤ (number : Int) ∧ (number : Int) ≤ WordRange.maxUInt32 :=
    ⟨Int.natCast_nonneg number, Int.ofNat_le.mpr small⟩
  rw [TokenClass.unsignedValue?, ← toString_natCast, integerValue?_toString]
  exact if_pos fits

theorem signedValue?_toString (number : Int32) :
    TokenClass.signedValue? (toString number.toInt) = some number := by
  have fits : -WordRange.maxInt32 - 1 ≤ number.toInt ∧ number.toInt ≤ WordRange.maxInt32 := by
    have above := number.le_toInt
    have below := number.toInt_lt
    rw [WordRange.maxInt32]
    omega
  rw [TokenClass.signedValue?, integerValue?_toString]
  change (if _ then some (Int32.ofInt number.toInt) else none) = _
  rw [if_pos fits, Int32.ofInt_toInt]

/-! ### Joined words -/

theorem split_of_next?
    {text rest : List Char}
    {lexeme : Lexeme}
    (found : next? text = some (lexeme, rest)) :
    Lexeme.split text = (lexeme :: (Lexeme.split rest).1, (Lexeme.split rest).2) := by
  rw [Lexeme.split]
  split
  · rename_i none
    rw [none] at found
    cases found
  · rename_i other behind again
    rw [again] at found
    obtain ⟨rfl, rfl⟩ := Prod.mk.inj (Option.some.inj found)
    rfl

private theorem next?_blank {first : Char} {others : List Char}
    (solid : Text.isBlank first = false) :
    next? (' ' :: first :: others) = some (⟨.blank, [' ']⟩, first :: others) := by
  have blank : blank? (' ' :: first :: others) = some ([' '], first :: others) := by
    have start : Text.isBlank ' ' = true := by decide
    simp [blank?, start, solid]
  have noStart : ¬ (isNameStart ' ' || (' ' == '.' && startsName (first :: others))) = true := nofun
  have noName : name? (' ' :: first :: others) = none := by rw [name?, if_neg noStart]
  have noSymbol : symbol? (' ' :: first :: others) = none := rfl
  simp only [next?, kinds, List.findSome?_cons, splitter, blank, noName, noSymbol,
    comment?_eq_none _ (by decide : ' ' ≠ '/'),
    quoted?_eq_none _ (by decide : ' ' ≠ '"') (by decide : ' ' ≠ '\''),
    number?_eq_none _ (by decide : ' ' ≠ '-') (by decide), Option.map_none, Option.map_some]

/-- The text of words starts with the first of them. -/
private theorem exists_intercalate (word : String) (others : List String) :
    ∃ rest, (" ".intercalate (word :: others)).toList = word.toList ++ rest := by
  cases others with
  | nil => exact ⟨[], by rw [String.intercalate_singleton, List.append_nil]⟩
  | cons next others =>
      rw [String.intercalate_cons_cons, String.toList_append, String.toList_append,
        List.append_assoc]
      exact ⟨_, rfl⟩

/-- Words that are joined by blanks are cut into these words and the blanks. -/
theorem split_intercalate {words : List String} (all : ∀ word ∈ words, IsWord word) :
    ∃ lexemes, Lexeme.split (" ".intercalate words).toList = (lexemes, []) ∧
      (lexemes.filter Lexeme.isToken).map (fun lexeme => String.ofList lexeme.text) = words := by
  have empty : Lexeme.split [] = ([], []) := by
    rw [Lexeme.split]
    rfl
  induction words with
  | nil => exact ⟨[], empty, rfl⟩
  | cons word others inductionHypothesis =>
      obtain ⟨kind, token, cut⟩ := (all word List.mem_cons_self).lexeme
      cases others with
      | nil =>
          have found := cut [] (.inl rfl)
          rw [List.append_nil] at found
          refine ⟨[⟨kind, word.toList⟩], ?_, ?_⟩
          · rw [String.intercalate_singleton, split_of_next? found, empty]
          · rw [List.filter_cons_of_pos token, List.filter_nil, List.map_cons, String.ofList_toList]
            rfl
      | cons next others =>
          obtain ⟨lexemes, later, texts⟩ := inductionHypothesis fun other member =>
            all other (List.mem_cons_of_mem _ member)
          obtain ⟨first, letters, same, solid⟩ := (all next (by simp)).solid
          obtain ⟨rest, whole⟩ := exists_intercalate next others
          rw [same] at whole
          have blank : next? (' ' :: (" ".intercalate (next :: others)).toList) =
              some (⟨.blank, [' ']⟩, (" ".intercalate (next :: others)).toList) := by
            rw [whole]
            exact next?_blank solid
          refine ⟨⟨kind, word.toList⟩ :: ⟨.blank, [' ']⟩ :: lexemes, ?_, ?_⟩
          · rw [String.intercalate_cons_cons, String.toList_append, String.toList_append,
              List.append_assoc]
            change
              Lexeme.split (word.toList ++ ' ' :: (" ".intercalate (next :: others)).toList) = _
            rw [split_of_next? (cut _ (.inr ⟨_, rfl⟩)), split_of_next? blank, later]
          · have noToken : ¬ Lexeme.isToken ⟨.blank, [' ']⟩ = true := nofun
            rw [List.filter_cons_of_pos token, List.filter_cons_of_neg noToken, List.map_cons,
              String.ofList_toList, texts]

theorem texts_ofLexemes (position : Position) (lexemes : List Lexeme) :
    (Token.ofLexemes position lexemes).map Token.text =
      (lexemes.filter Lexeme.isToken).map fun lexeme => String.ofList lexeme.text := by
  induction lexemes generalizing position with
  | nil => rfl
  | cons lexeme others inductionHypothesis =>
      rw [Token.ofLexemes, List.filter_cons]
      cases lexeme.isToken with
      | true => exact congrArg (_ :: ·) (inductionHypothesis _)
      | false => exact inductionHypothesis _

theorem scan_intercalate {words : List String} (all : ∀ word ∈ words, IsWord word) :
    ∃ tokens, Token.scan (" ".intercalate words) = .ok tokens ∧
      tokens.map Token.text = words ++ [""] := by
  obtain ⟨lexemes, cut, texts⟩ := split_intercalate all
  refine ⟨Token.ofLexemes .first lexemes ++ [.ending (Token.positionBehind .first lexemes)], ?_, ?_⟩
  · rw [Token.scan, cut]
    rfl
  · rw [List.map_append, texts_ofLexemes, texts]
    rfl

end ProtoWire.Proto
