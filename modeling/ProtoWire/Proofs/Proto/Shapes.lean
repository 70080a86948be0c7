import ProtoWire.Proofs.Proto.Lexing

/-!
Contract: what the lexemes of each class look like, described without a splitter. A splitter cuts
off lexemes of its class only, and it cuts off no shorter one than there are.

Owns:
- the texts of each class and what may stand behind them;
- the agreement of each splitter with the texts of its class.

Does not own: the choice between the classes.
-/

namespace ProtoWire.Proto

namespace Lexeme

/-! ### Shapes -/

/-- Two slashes and the rest of a line. -/
def IsLineComment (text behind : List Char) : Prop :=
  ∃ body, text = '/' :: '/' :: body ∧ '\n' ∉ body ∧ ∀ next more, behind = next :: more → next = '\n'

/-- A slash and a star, up to the first star and slash. -/
def IsBlockComment (text : List Char) : Prop :=
  ∃ body, text = '/' :: '*' :: (body ++ ['*', '/']) ∧
    ∀ front back, body ++ ['*', '/'] = front ++ '*' :: '/' :: back → back = []

/-- Between two marks, a mark and a backslash stand behind a backslash only, and a line break does
not stand at all. -/
inductive IsQuotable (mark : Char) : List Char → Prop where
  | nil : IsQuotable mark []
  | plain
      {character : Char}
      {others : List Char}
      (noMark : character ≠ mark)
      (noBackslash : character ≠ '\\')
      (noBreak : character ≠ '\n')
      (later : IsQuotable mark others) :
      IsQuotable mark (character :: others)
  | escaped
      {character : Char}
      {others : List Char}
      (noBreak : character ≠ '\n')
      (later : IsQuotable mark others) :
      IsQuotable mark ('\\' :: character :: others)

def IsQuoted (text : List Char) : Prop :=
  ∃ mark body, (mark = '"' ∨ mark = '\'') ∧ text = mark :: (body ++ [mark]) ∧ IsQuotable mark body

def IsDigits (text : List Char) : Prop :=
  text ≠ [] ∧ ∀ digit ∈ text, Text.isAnyDigit digit = true

def IsFraction (text : List Char) : Prop :=
  ∃ digits, text = '.' :: digits ∧ IsDigits digits

def IsExponent (text : List Char) : Prop :=
  ∃ letter sign digits, text = letter :: (sign ++ digits) ∧ (letter = 'e' ∨ letter = 'E') ∧
    (sign = [] ∨ sign = ['+'] ∨ sign = ['-']) ∧ IsDigits digits

/-- Digits with or without a fraction and an exponent. -/
def IsDecimal (text : List Char) : Prop :=
  ∃ whole fraction exponent, text = whole ++ (fraction ++ exponent) ∧ IsDigits whole ∧
    (fraction = [] ∨ IsFraction fraction) ∧ (exponent = [] ∨ IsExponent exponent)

def IsHexadecimal (text : List Char) : Prop :=
  ∃ letter digits, text = '0' :: letter :: digits ∧ (letter = 'x' ∨ letter = 'X') ∧
    digits ≠ [] ∧ ∀ digit ∈ digits, isHexDigit digit = true

def IsUnsigned (text : List Char) : Prop :=
  IsHexadecimal text ∨ IsDecimal text

def IsNumber (text : List Char) : Prop :=
  IsUnsigned text ∨ ∃ unsigned, text = '-' :: unsigned ∧ IsUnsigned unsigned

/-- Names joined by points, perhaps behind a point. -/
def IsName (text : List Char) : Prop :=
  TokenClass.namesGoOn true text = true ∨
    ∃ rest, text = '.' :: rest ∧ TokenClass.namesGoOn true rest = true

/-- A text is a lexeme of a class in front of another text. -/
def Fits (kind : LexemeKind) (text behind : List Char) : Prop :=
  match kind with
  | .comment => IsLineComment text behind ∨ IsBlockComment text
  | .quoted => IsQuoted text
  | .number => IsNumber text ∧ atWordEnd behind = true
  | .name => IsName text
  | .symbol => ∃ character, text = [character] ∧ isSymbol character = true
  | .blank => text ≠ [] ∧ ∀ character ∈ text, Text.isBlank character = true

/-- A splitter finds lexemes of a class only, and it finds no shorter one than there are. -/
structure Finds (kind : LexemeKind) : Prop where
  sound : ∀ {text taken rest}, splitter kind text = some (taken, rest) → Fits kind taken rest
  complete : ∀ {taken rest}, Fits kind taken rest →
    ∃ longer behind, splitter kind (taken ++ rest) = some (longer, behind) ∧
      taken.length ≤ longer.length

/-! ### Characters -/

/-- What holds of the characters with the first codes can be checked one by one. -/
theorem forall_ascii
    (property : Char → Prop)
    (all : ∀ code : Fin 128, property (Char.ofNat code))
    {character : Char}
    (small : character.toNat < 128) :
    property character := by
  have known := all ⟨character.toNat, small⟩
  rwa [Char.ofNat_toNat] at known

private theorem contains_of_within
    {inner outer : CodePointRanges}
    (within : inner.all (fun range =>
      outer.any fun wider => Nat.ble wider.1 range.1 && Nat.ble range.2 wider.2) = true)
    {character : Char}
    (inside : inner.contains character = true) :
    outer.contains character = true := by
  rw [CodePointRanges.contains, List.any_eq_true] at inside ⊢
  obtain ⟨range, member, bounds⟩ := inside
  obtain ⟨wider, widerMember, wide⟩ := List.any_eq_true.mp (List.all_eq_true.mp within range member)
  simp only [Bool.and_eq_true, decide_eq_true_eq, Nat.ble_eq] at bounds wide ⊢
  exact ⟨wider, widerMember, by omega⟩

theorem isWordCharacter_of_isAnyDigit {character : Char}
    (digit : Text.isAnyDigit character = true) : Text.isWordCharacter character = true := by
  have within : Text.foreignDigitRanges.all (fun range => Text.foreignWordRanges.any fun wider =>
      Nat.ble wider.1 range.1 && Nat.ble range.2 wider.2) = true := by
    decide +kernel
  have above : ∀ range ∈ Text.foreignDigitRanges, 128 ≤ range.1 := by decide
  rw [Text.isAnyDigit, Bool.or_eq_true] at digit
  rcases digit with ascii | foreign
  · have small := toNat_of_isDigit ascii
    rw [Text.isWordCharacter, if_pos (by omega), Char.isAlphanum, ascii, Bool.or_true, Bool.true_or]
  · have large : ¬ character.toNat < 128 := by
      rw [CodePointRanges.contains, List.any_eq_true] at foreign
      obtain ⟨range, member, bounds⟩ := foreign
      have least := above range member
      simp only [Bool.and_eq_true, decide_eq_true_eq] at bounds
      omega
    rw [Text.isWordCharacter, if_neg large]
    exact contains_of_within within foreign

theorem isWordCharacter_of_isHexDigit {character : Char}
    (digit : isHexDigit character = true) : Text.isWordCharacter character = true := by
  have bound : character.toNat < 128 := by
    unfold isHexDigit Hex.value? at digit
    split at digit
    · rename_i range
      simp only [Bool.and_eq_true, decide_eq_true_eq] at range
      have below : character.toNat ≤ 57 := range.2
      omega
    · split at digit
      · rename_i range
        simp only [Bool.and_eq_true, decide_eq_true_eq] at range
        have below : character.toNat ≤ 102 := range.2
        omega
      · split at digit
        · rename_i range
          simp only [Bool.and_eq_true, decide_eq_true_eq] at range
          have below : character.toNat ≤ 70 := range.2
          omega
        · cases digit
  exact forall_ascii
    (fun character => isHexDigit character = true → Text.isWordCharacter character = true)
    (by decide +kernel) bound digit

/-! ### Comments -/

private theorem throughStarSlash_complete {body rest : List Char}
    (first : ∀ front back, body ++ ['*', '/'] = front ++ '*' :: '/' :: back → back = []) :
    throughStarSlash (body ++ '*' :: '/' :: rest) = some (body ++ ['*', '/'], rest) := by
  induction body with
  | nil => rfl
  | cons character others inductionHypothesis =>
      have later := inductionHypothesis fun front back same =>
        first (character :: front) back (congrArg (character :: ·) same)
      have noEnd (more : List Char) (star : character = '*')
          (slash : others ++ '*' :: '/' :: rest = '/' :: more) : False := by
        subst star
        cases others with
        | nil => cases slash
        | cons next others =>
            obtain rfl : next = '/' := (List.cons.inj slash).1
            exact absurd (first [] (others ++ ['*', '/']) rfl) (by simp)
      rw [List.cons_append, throughStarSlash, later]
      · rfl
      · exact noEnd

private theorem throughStarSlash_sound {text taken rest : List Char}
    (found : throughStarSlash text = some (taken, rest)) :
    text = taken ++ rest ∧ ∃ body, taken = body ++ ['*', '/'] ∧
      ∀ front back, body ++ ['*', '/'] = front ++ '*' :: '/' :: back → back = [] := by
  fun_induction throughStarSlash text generalizing taken with
  | case1 =>
      obtain ⟨rfl, rfl⟩ := Prod.mk.inj (Option.some.inj found)
      refine ⟨rfl, [], rfl, fun front back same => ?_⟩
      have lengths := congrArg List.length same
      simp only [List.nil_append, List.length_cons, List.length_append, List.length_nil] at lengths
      exact List.eq_nil_of_length_eq_zero (by omega)
  | case2 character others noEnd inductionHypothesis =>
      obtain ⟨⟨inner, behind⟩, cut, same⟩ := Option.map_eq_some_iff.mp found
      obtain ⟨rfl, rfl⟩ := Prod.mk.inj same
      obtain ⟨whole, body, rfl, first⟩ := inductionHypothesis cut
      refine ⟨congrArg (character :: ·) whole, character :: body, rfl, fun front back equal => ?_⟩
      cases front with
      | nil =>
          obtain ⟨rfl, slash⟩ := List.cons.inj equal
          have slash : body ++ ['*', '/'] = '/' :: back := slash
          rw [slash, List.cons_append] at whole
          exact absurd whole (noEnd _ rfl)
      | cons head front => exact first front back (List.cons.inj equal).2
  | case3 => cases found

private theorem stops_dropWhile (test : Char → Bool) (text : List Char) :
    ∀ next more, text.dropWhile test = next :: more → test next = false := by
  intro next more same
  have head := List.head?_dropWhile_not test text
  rw [same] at head
  simpa using head

theorem comment?_of_fits {text behind : List Char} (fits : Fits .comment text behind) :
    comment? (text ++ behind) = some (text, behind) := by
  rcases fits with ⟨body, rfl, sameLine, stops⟩ | ⟨body, rfl, first⟩
  · obtain ⟨taken, dropped⟩ := @takeWhile_exact (· != '\n') body behind
      (fun character member => bne_iff_ne.mpr fun equal => sameLine (equal ▸ member))
      (fun next more same => by rw [stops next more same]; rfl)
    change some ('/' :: '/' :: (body ++ behind).takeWhile _, (body ++ behind).dropWhile _) = _
    rw [taken, dropped]
  · change (throughStarSlash (body ++ ['*', '/'] ++ behind)).after ['/', '*'] = _
    rw [List.append_assoc]
    change (throughStarSlash (body ++ '*' :: '/' :: behind)).after ['/', '*'] = _
    rw [throughStarSlash_complete first]
    rfl

theorem finds_comment : Finds .comment where
  sound := by
    intro text taken rest found
    change comment? text = _ at found
    unfold comment? at found
    split at found
    · obtain ⟨rfl, rfl⟩ := Prod.mk.inj (Option.some.inj found)
      refine .inl ⟨_, rfl, fun lineBreak => ?_, fun next more same => ?_⟩
      · have other := List.all_eq_true.mp List.all_takeWhile '\n' lineBreak
        exact absurd rfl (bne_iff_ne.mp other)
      · have stop := stops_dropWhile _ _ next more same
        simpa using stop
    · obtain ⟨⟨inner, behind⟩, cut, same⟩ := Option.map_eq_some_iff.mp found
      obtain ⟨rfl, rfl⟩ := Prod.mk.inj same
      obtain ⟨-, body, rfl, first⟩ := throughStarSlash_sound cut
      exact .inr ⟨body, rfl, first⟩
    · cases found
  complete := fun fits => ⟨_, _, comment?_of_fits fits, Nat.le_refl _⟩

/-! ### Quoted texts -/

private theorem throughMark_complete
    {mark : Char}
    (noBackslash : mark ≠ '\\')
    {body : List Char}
    (quotable : IsQuotable mark body)
    (rest : List Char) :
    throughMark mark (body ++ mark :: rest) = some (body ++ [mark], rest) := by
  induction quotable with
  | nil =>
      rw [List.nil_append, throughMark, if_pos rfl]
      · rfl
      · exact fun _ _ same _ => noBackslash same
  | @plain character others noMark noEscape noBreak later inductionHypothesis =>
      rw [List.cons_append, throughMark, if_neg noMark, if_neg (not_or.mpr ⟨noEscape, noBreak⟩),
        inductionHypothesis]
      · rfl
      · exact fun _ _ same _ => noEscape same
  | @escaped character others noBreak later inductionHypothesis =>
      rw [List.cons_append, List.cons_append, throughMark, if_neg noBreak, inductionHypothesis]
      rfl

private theorem throughMark_sound {mark : Char} {text taken rest : List Char}
    (found : throughMark mark text = some (taken, rest)) :
    ∃ body, taken = body ++ [mark] ∧ IsQuotable mark body := by
  fun_induction throughMark mark text generalizing taken with
  | case1 => cases found
  | case2 => cases found
  | case3 character others noBreak inductionHypothesis =>
      obtain ⟨⟨inner, behind⟩, cut, same⟩ := Option.map_eq_some_iff.mp found
      obtain ⟨rfl, rfl⟩ := Prod.mk.inj same
      obtain ⟨body, rfl, quotable⟩ := inductionHypothesis cut
      exact ⟨'\\' :: character :: body, rfl, .escaped noBreak quotable⟩
  | case4 =>
      obtain ⟨rfl, rfl⟩ := Prod.mk.inj (Option.some.inj found)
      exact ⟨[], rfl, .nil⟩
  | case5 => cases found
  | case6 character others _ noMark noOther inductionHypothesis =>
      obtain ⟨⟨inner, behind⟩, cut, same⟩ := Option.map_eq_some_iff.mp found
      obtain ⟨rfl, rfl⟩ := Prod.mk.inj same
      obtain ⟨body, rfl, quotable⟩ := inductionHypothesis cut
      obtain ⟨noBackslash, noBreak⟩ := not_or.mp noOther
      exact ⟨character :: body, rfl, .plain noMark noBackslash noBreak quotable⟩

theorem quoted?_of_fits {text : List Char} (fits : IsQuoted text) (behind : List Char) :
    quoted? (text ++ behind) = some (text, behind) := by
  obtain ⟨mark, body, isMark, rfl, quotable⟩ := fits
  rw [List.cons_append, List.append_assoc, List.singleton_append]
  rcases isMark with rfl | rfl
  · change (throughMark '"' (body ++ '"' :: behind)).after ['"'] = _
    rw [throughMark_complete (by decide) quotable]
    rfl
  · change (throughMark '\'' (body ++ '\'' :: behind)).after ['\''] = _
    rw [throughMark_complete (by decide) quotable]
    rfl

theorem finds_quoted : Finds .quoted where
  sound := by
    intro text taken rest found
    change quoted? text = _ at found
    unfold quoted? at found
    split at found
    · obtain ⟨⟨inner, behind⟩, cut, same⟩ := Option.map_eq_some_iff.mp found
      obtain ⟨rfl, rfl⟩ := Prod.mk.inj same
      obtain ⟨body, rfl, quotable⟩ := throughMark_sound cut
      exact ⟨'"', body, .inl rfl, rfl, quotable⟩
    · obtain ⟨⟨inner, behind⟩, cut, same⟩ := Option.map_eq_some_iff.mp found
      obtain ⟨rfl, rfl⟩ := Prod.mk.inj same
      obtain ⟨body, rfl, quotable⟩ := throughMark_sound cut
      exact ⟨'\'', body, .inr rfl, rfl, quotable⟩
    · cases found
  complete := fun fits => ⟨_, _, quoted?_of_fits fits _, Nat.le_refl _⟩

/-! ### Numbers -/

section Numbers

variable {text taken behind rest : List Char}

private theorem atWordEnd_iff :
    atWordEnd rest = true ↔
      ∀ next more, rest = next :: more → Text.isWordCharacter next = false := by
  cases rest with
  | nil => simp [atWordEnd]
  | cons next more => simp [atWordEnd]

/-- A character that words go on with does not stand at the end of a word. -/
private theorem stops_at_wordEnd
    {test : Char → Bool}
    (words : ∀ {character}, test character = true → Text.isWordCharacter character = true)
    (ends : atWordEnd rest = true) :
    ∀ next more, rest = next :: more → test next = false := by
  intro next more same
  rw [Bool.eq_false_iff]
  intro goesOn
  have stop := atWordEnd_iff.mp ends next more same
  rw [words goesOn] at stop
  cases stop

private theorem digits?_sound (found : digits? text = some (taken, rest)) : IsDigits taken := by
  unfold digits? at found
  split at found
  · cases found
  · rename_i nonempty
    obtain ⟨rfl, rfl⟩ := Prod.mk.inj (Option.some.inj found)
    exact ⟨fun empty => nonempty (List.isEmpty_iff.mpr empty),
      fun digit member => List.all_eq_true.mp List.all_takeWhile digit member⟩

private theorem digits?_complete
    (digits : IsDigits taken)
    (stops : ∀ next more, rest = next :: more → Text.isAnyDigit next = false) :
    digits? (taken ++ rest) = some (taken, rest) := by
  obtain ⟨whole, dropped⟩ := takeWhile_exact digits.2 stops
  rw [digits?, whole, dropped, List.isEmpty_eq_false_iff.mpr digits.1]
  rfl

private theorem fraction?_point (others : List Char) :
    fraction? ('.' :: others) = (digits? others).after ['.'] := by
  rw [fraction?, digits?]
  split <;> rfl

private theorem fraction?_sound (found : fraction? text = some (taken, rest)) :
    IsFraction taken := by
  cases text with
  | nil => cases found
  | cons first others =>
      by_cases point : first = '.'
      · subst point
        rw [fraction?_point] at found
        obtain ⟨⟨digits, behind⟩, cut, same⟩ := Option.map_eq_some_iff.mp found
        obtain ⟨rfl, rfl⟩ := Prod.mk.inj same
        exact ⟨digits, rfl, digits?_sound cut⟩
      · rw [fraction?.eq_2 _ fun _ same => point (List.cons.inj same).1] at found
        cases found

private theorem fraction?_complete
    (fraction : IsFraction taken)
    (stops : ∀ next more, rest = next :: more → Text.isAnyDigit next = false) :
    fraction? (taken ++ rest) = some (taken, rest) := by
  obtain ⟨digits, rfl, isDigits⟩ := fraction
  rw [List.cons_append, fraction?_point, digits?_complete isDigits stops]
  rfl

private theorem fraction?_eq_none (noPoint : ∀ more, text ≠ '.' :: more) :
    fraction? text = none :=
  fraction?.eq_2 text noPoint

private theorem exponent?_sound (found : exponent? text = some (taken, rest)) :
    IsExponent taken := by
  unfold exponent? at found
  split at found
  · rename_i letter others
    split at found
    · rename_i isLetter
      split at found
      · rename_i sign more
        split at found
        · rename_i isSign
          obtain ⟨⟨digits, behind⟩, cut, same⟩ := Option.map_eq_some_iff.mp found
          obtain ⟨rfl, rfl⟩ := Prod.mk.inj same
          refine ⟨letter, [sign], digits, rfl, isLetter, ?_, digits?_sound cut⟩
          rcases isSign with rfl | rfl
          · exact .inr (.inl rfl)
          · exact .inr (.inr rfl)
        · obtain ⟨⟨digits, behind⟩, cut, same⟩ := Option.map_eq_some_iff.mp found
          obtain ⟨rfl, rfl⟩ := Prod.mk.inj same
          exact ⟨letter, [], digits, rfl, isLetter, .inl rfl, digits?_sound cut⟩
      · cases found
    · cases found
  · cases found

private theorem exponent?_complete
    (exponent : IsExponent taken)
    (stops : ∀ next more, rest = next :: more → Text.isAnyDigit next = false) :
    exponent? (taken ++ rest) = some (taken, rest) := by
  obtain ⟨letter, sign, digits, rfl, isLetter, isSign, isDigits⟩ := exponent
  have cut := digits?_complete isDigits stops
  have signed (mark : Char) (isMark : mark = '+' ∨ mark = '-') :
      exponent? (letter :: mark :: (digits ++ rest)) = some (letter :: mark :: digits, rest) := by
    rw [exponent?, if_pos isLetter, if_pos isMark, cut]
    rfl
  rcases isSign with rfl | rfl | rfl
  · obtain ⟨first, others, rfl⟩ := List.exists_cons_of_ne_nil isDigits.1
    have digit := isDigits.2 first List.mem_cons_self
    have noSign : ¬ (first = '+' ∨ first = '-') := by
      rintro (rfl | rfl)
      · exact absurd digit (by decide)
      · exact absurd digit (by decide)
    rw [List.cons_append, List.nil_append, List.cons_append, exponent?, if_pos isLetter,
      if_neg noSign]
    change (digits? (first :: others ++ rest)).after [letter] = _
    rw [cut]
    rfl
  · exact signed '+' (.inl rfl)
  · exact signed '-' (.inr rfl)

private theorem exponent?_eq_none
    (noLetter : ∀ next more, text = next :: more → ¬ (next = 'e' ∨ next = 'E')) :
    exponent? text = none := by
  cases text with
  | nil => rfl
  | cons next more =>
      unfold exponent?
      exact if_neg (noLetter next more rfl)

/-- What may be missing from a number is found first, if it is there. -/
private theorem optional_fraction
    {fraction : List Char}
    (isFraction : fraction = [] ∨ IsFraction fraction)
    (digits : ∀ next more, rest = next :: more → Text.isAnyDigit next = false)
    (noPoint : fraction = [] → ∀ more, rest ≠ '.' :: more) :
    ∃ others, Lexeme.optional fraction? (fraction ++ rest) = (fraction, rest) :: others := by
  rcases isFraction with rfl | isFraction
  · refine ⟨[], ?_⟩
    rw [List.nil_append, Lexeme.optional, fraction?_eq_none (noPoint rfl)]
    rfl
  · rw [Lexeme.optional, fraction?_complete isFraction digits]
    exact ⟨_, rfl⟩

private theorem optional_exponent
    {exponent : List Char}
    (isExponent : exponent = [] ∨ IsExponent exponent)
    (ends : atWordEnd rest = true) :
    ∃ others, Lexeme.optional exponent? (exponent ++ rest) = (exponent, rest) :: others := by
  rcases isExponent with rfl | isExponent
  · refine ⟨[], ?_⟩
    rw [List.nil_append, Lexeme.optional, exponent?_eq_none]
    · rfl
    · rintro next more same (rfl | rfl)
      · exact absurd (atWordEnd_iff.mp ends _ _ same) (by decide)
      · exact absurd (atWordEnd_iff.mp ends _ _ same) (by decide)
  · rw [Lexeme.optional,
      exponent?_complete isExponent (stops_at_wordEnd isWordCharacter_of_isAnyDigit ends)]
    exact ⟨_, rfl⟩

private theorem mem_optional
    {splitter : List Char → Split}
    (member : (taken, rest) ∈ Lexeme.optional splitter text) :
    splitter text = some (taken, rest) ∨ taken = [] := by
  simp only [Lexeme.optional, List.mem_append, Option.mem_toList, List.mem_singleton] at member
  rcases member with found | same
  · exact .inl found
  · exact .inr (Prod.mk.inj same).1

private theorem decimal?_sound (found : decimal? text = some (taken, rest)) :
    IsDecimal taken ∧ atWordEnd rest = true := by
  unfold decimal? at found
  split at found
  · cases found
  · rename_i whole tail cut
    have ends := List.find?_some found
    have member := List.mem_of_find?_eq_some found
    simp only [List.mem_flatMap, List.mem_map, Prod.mk.injEq] at member
    obtain ⟨⟨fraction, middle⟩, fractionMember, ⟨exponent, last⟩, exponentMember, rfl, rfl⟩ := member
    refine ⟨⟨whole, fraction, exponent, rfl, digits?_sound cut, ?_, ?_⟩, ends⟩
    · rcases mem_optional fractionMember with found | empty
      · exact .inr (fraction?_sound found)
      · exact .inl empty
    · rcases mem_optional exponentMember with found | empty
      · exact .inr (exponent?_sound found)
      · exact .inl empty

/-- Behind the whole digits of a number, another digit does not stand. -/
private theorem no_digit_behind
    {fraction exponent : List Char}
    (isFraction : fraction = [] ∨ IsFraction fraction)
    (isExponent : exponent = [] ∨ IsExponent exponent)
    (ends : atWordEnd rest = true) :
    ∀ next more, fraction ++ (exponent ++ rest) = next :: more →
      Text.isAnyDigit next = false ∧ next ≠ 'x' ∧ next ≠ 'X' := by
  intro next more same
  rcases isFraction with rfl | ⟨digits, rfl, -⟩
  · rcases isExponent with rfl | ⟨letter, sign, digits, rfl, isLetter, -⟩
    · refine ⟨stops_at_wordEnd isWordCharacter_of_isAnyDigit ends next more same, ?_, ?_⟩
      · rintro rfl
        exact absurd (atWordEnd_iff.mp ends _ _ same) (by decide)
      · rintro rfl
        exact absurd (atWordEnd_iff.mp ends _ _ same) (by decide)
    · obtain rfl : letter = next := (List.cons.inj same).1
      rcases isLetter with rfl | rfl
      · decide
      · decide
  · obtain rfl : '.' = next := (List.cons.inj same).1
    decide

private theorem decimal?_complete
    (decimal : IsDecimal taken)
    (ends : atWordEnd rest = true) :
    ∃ longer behind, decimal? (taken ++ rest) = some (longer, behind) ∧
      taken.length ≤ longer.length := by
  obtain ⟨whole, fraction, exponent, rfl, digits, isFraction, isExponent⟩ := decimal
  have cut : digits? (whole ++ (fraction ++ exponent) ++ rest) =
      some (whole, fraction ++ (exponent ++ rest)) := by
    rw [List.append_assoc, List.append_assoc]
    exact digits?_complete digits fun next more same =>
      (no_digit_behind isFraction isExponent ends next more same).1
  unfold decimal?
  rw [cut]
  by_cases bare : fraction = [] ∧ exponent = []
  · -- A fraction or an exponent behind the digits would only make the number longer.
    obtain ⟨rfl, rfl⟩ := bare
    have hit : ((optional fraction? rest).flatMap fun fraction =>
        (optional exponent? fraction.2).map fun exponent =>
          (whole ++ (fraction.1 ++ exponent.1), exponent.2)).find? (fun split =>
            atWordEnd split.2) ≠ none := by
      rw [← Option.isSome_iff_ne_none, List.find?_isSome]
      refine ⟨(whole ++ ([] ++ []), rest), ?_, ends⟩
      refine List.mem_flatMap.mpr ⟨([], rest), List.mem_append_right _ List.mem_cons_self, ?_⟩
      exact List.mem_map.mpr ⟨([], rest), List.mem_append_right _ List.mem_cons_self, rfl⟩
    obtain ⟨⟨longer, behind⟩, found⟩ := Option.ne_none_iff_exists'.mp hit
    refine ⟨longer, behind, found, ?_⟩
    have member := List.mem_of_find?_eq_some found
    simp only [List.mem_flatMap, List.mem_map, Prod.mk.injEq] at member
    obtain ⟨_, -, _, -, rfl, -⟩ := member
    simp only [List.append_nil, List.length_append]
    omega
  · have noDigit : ∀ next more, exponent ++ rest = next :: more → Text.isAnyDigit next = false :=
      fun next more same => (no_digit_behind (.inl rfl) isExponent ends next more same).1
    have noPoint (empty : fraction = []) (more : List Char) : exponent ++ rest ≠ '.' :: more := by
      rcases isExponent with rfl | ⟨letter, sign, digits, rfl, isLetter, -⟩
      · exact absurd ⟨empty, rfl⟩ bare
      · intro same
        obtain rfl : letter = '.' := (List.cons.inj same).1
        exact absurd isLetter (by decide)
    obtain ⟨laterFractions, fractions⟩ :=
      optional_fraction isFraction noDigit noPoint
    obtain ⟨laterExponents, exponents⟩ := optional_exponent isExponent ends
    refine ⟨_, rest, ?_, Nat.le_refl _⟩
    simp only [fractions, List.flatMap_cons, exponents, List.map_cons, List.cons_append]
    exact List.find?_cons_of_pos ends

private theorem hexadecimal?_sound (found : hexadecimal? text = some (taken, rest)) :
    IsHexadecimal taken ∧ atWordEnd rest = true := by
  unfold hexadecimal? at found
  split at found
  · rename_i letter others
    split at found
    · rename_i conditions
      obtain ⟨isLetter, nonempty, ends⟩ := conditions
      obtain ⟨rfl, rfl⟩ := Prod.mk.inj (Option.some.inj found)
      refine ⟨⟨letter, _, rfl, isLetter, fun empty => nonempty (List.isEmpty_iff.mpr empty), ?_⟩,
        ends⟩
      exact fun digit member => List.all_eq_true.mp List.all_takeWhile digit member
    · cases found
  · cases found

private theorem hexadecimal?_complete
    (hexadecimal : IsHexadecimal taken)
    (ends : atWordEnd rest = true) :
    hexadecimal? (taken ++ rest) = some (taken, rest) := by
  obtain ⟨letter, digits, rfl, isLetter, nonempty, all⟩ := hexadecimal
  obtain ⟨whole, dropped⟩ :=
    takeWhile_exact all (stops_at_wordEnd isWordCharacter_of_isHexDigit ends)
  rw [List.cons_append, List.cons_append, hexadecimal?, whole, dropped, if_pos]
  exact ⟨isLetter, fun empty => nonempty (List.isEmpty_iff.mp empty), ends⟩

/-- A decimal number is not the front of a hexadecimal one. -/
private theorem hexadecimal?_of_decimal
    (decimal : IsDecimal taken)
    (ends : atWordEnd rest = true) :
    hexadecimal? (taken ++ rest) = none := by
  obtain ⟨whole, fraction, exponent, rfl, digits, isFraction, isExponent⟩ := decimal
  rw [List.append_assoc, List.append_assoc]
  unfold hexadecimal?
  split
  · rename_i letter others same
    refine if_neg fun conditions => ?_
    have noLetter : letter ≠ 'x' ∧ letter ≠ 'X' := by
      obtain ⟨first, more, rfl⟩ := List.exists_cons_of_ne_nil digits.1
      have tail : more ++ (fraction ++ (exponent ++ rest)) = letter :: others :=
        (List.cons.inj same).2
      cases more with
      | nil => exact (no_digit_behind isFraction isExponent ends letter others tail).2
      | cons second more =>
          obtain rfl : second = letter := (List.cons.inj tail).1
          have digit := digits.2 second (by simp)
          constructor
          · rintro rfl
            exact absurd digit (by decide)
          · rintro rfl
            exact absurd digit (by decide)
    exact conditions.1.elim noLetter.1 noLetter.2
  · rfl

private theorem unsigned?_sound (found : unsigned? text = some (taken, rest)) :
    IsUnsigned taken ∧ atWordEnd rest = true := by
  rw [unsigned?, Option.or_eq_some_iff] at found
  rcases found with hexadecimal | ⟨-, decimal⟩
  · obtain ⟨shape, ends⟩ := hexadecimal?_sound hexadecimal
    exact ⟨.inl shape, ends⟩
  · obtain ⟨shape, ends⟩ := decimal?_sound decimal
    exact ⟨.inr shape, ends⟩

private theorem unsigned?_complete
    (unsigned : IsUnsigned taken)
    (ends : atWordEnd rest = true) :
    ∃ longer behind, unsigned? (taken ++ rest) = some (longer, behind) ∧
      taken.length ≤ longer.length := by
  rcases unsigned with hexadecimal | decimal
  · exact ⟨taken, rest, by rw [unsigned?, hexadecimal?_complete hexadecimal ends]; rfl,
      Nat.le_refl _⟩
  · rw [unsigned?, hexadecimal?_of_decimal decimal ends, Option.none_or]
    exact decimal?_complete decimal ends

/-- A number without a sign starts with a digit. -/
theorem digit_of_isUnsigned (unsigned : IsUnsigned text) :
    ∃ first others, text = first :: others ∧ Text.isAnyDigit first = true := by
  rcases unsigned with ⟨letter, digits, rfl, -⟩ | ⟨whole, fraction, exponent, rfl, digits, -⟩
  · exact ⟨'0', _, rfl, by decide⟩
  · obtain ⟨first, others, rfl⟩ := List.exists_cons_of_ne_nil digits.1
    exact ⟨first, _, rfl, digits.2 first List.mem_cons_self⟩

theorem finds_number : Finds .number where
  sound := by
    intro text taken rest found
    change number? text = _ at found
    unfold number? at found
    split at found
    · obtain ⟨⟨inner, behind⟩, cut, same⟩ := Option.map_eq_some_iff.mp found
      obtain ⟨rfl, rfl⟩ := Prod.mk.inj same
      obtain ⟨shape, ends⟩ := unsigned?_sound cut
      exact ⟨.inr ⟨inner, rfl, shape⟩, ends⟩
    · obtain ⟨shape, ends⟩ := unsigned?_sound found
      exact ⟨.inl shape, ends⟩
  complete := by
    rintro taken rest ⟨unsigned | ⟨unsigned, rfl, shape⟩, ends⟩
    · obtain ⟨first, others, same, digit⟩ := digit_of_isUnsigned unsigned
      have noSign : ∀ more, taken ++ rest ≠ '-' :: more := by
        intro more signed
        rw [same] at signed
        obtain rfl : first = '-' := (List.cons.inj signed).1
        exact absurd digit (by decide)
      change ∃ longer behind, number? (taken ++ rest) = some (longer, behind) ∧ _
      rw [number?.eq_2 _ noSign]
      exact unsigned?_complete unsigned ends
    · obtain ⟨longer, behind, cut, length⟩ := unsigned?_complete shape ends
      refine ⟨'-' :: longer, behind, ?_, Nat.succ_le_succ length⟩
      change (unsigned? (unsigned ++ rest)).after ['-'] = _
      rw [cut]
      rfl

end Numbers

/-! ### Names, symbols and blanks -/

/-- The names at the front of a text that starts inside of a name. -/
private theorem nameTail_sound (text : List Char) :
    TokenClass.namesGoOn false (nameTail text).1 = true ∧
      (startsName text = true → TokenClass.namesGoOn true (nameTail text).1 = true) := by
  induction text with
  | nil => exact ⟨rfl, nofun⟩
  | cons character others inductionHypothesis =>
      obtain ⟨goesOn, starts⟩ := inductionHypothesis
      by_cases part : isNamePart character = true
      · have noPoint : character ≠ '.' := by
          rintro rfl
          exact absurd part (by decide)
        have cut : (nameTail (character :: others)).1 = character :: (nameTail others).1 := by
          rw [nameTail, part, Bool.true_or, if_pos rfl]
        rw [cut]
        refine ⟨?_, fun start => ?_⟩
        · simp [TokenClass.namesGoOn, noPoint, part, goesOn]
        · have start : isNameStart character = true := start
          simp [TokenClass.namesGoOn, start, goesOn]
      · have noStart : startsName (character :: others) = true → False := fun start =>
          part (isNamePart_of_isNameStart start)
        refine ⟨?_, fun start => (noStart start).elim⟩
        by_cases point : character = '.' ∧ startsName others = true
        · obtain ⟨rfl, start⟩ := point
          have cut : (nameTail ('.' :: others)).1 = '.' :: (nameTail others).1 := by
            rw [nameTail, start, if_pos (by decide)]
          rw [cut]
          simp [TokenClass.namesGoOn, starts start]
        · have refused : ¬ (isNamePart character || (character == '.' && startsName others)) =
              true := by
            simpa [Bool.eq_false_iff.mpr part] using point
          rw [nameTail, if_neg refused]
          rfl

/-- Names are not cut short. -/
private theorem length_nameTail
    {text : List Char}
    {fresh : Bool}
    (names : TokenClass.namesGoOn fresh text = true)
    (rest : List Char) :
    text.length ≤ (nameTail (text ++ rest)).1.length ∧
      (fresh = true → startsName (text ++ rest) = true) := by
  induction text generalizing fresh with
  | nil =>
      refine ⟨Nat.zero_le _, ?_⟩
      rintro rfl
      cases names
  | cons character others inductionHypothesis =>
      have goesOn (part : (isNamePart character ||
          (character == '.' && startsName (others ++ rest))) = true)
          (tail : others.length ≤ (nameTail (others ++ rest)).1.length) :
          (character :: others).length ≤ (nameTail (character :: others ++ rest)).1.length := by
        rw [List.cons_append, nameTail, if_pos part]
        exact Nat.succ_le_succ tail
      cases fresh with
      | true =>
          obtain ⟨start, later⟩ : isNameStart character = true ∧
              TokenClass.namesGoOn false others = true := by
            simpa [TokenClass.namesGoOn] using names
          refine ⟨goesOn ?_ (inductionHypothesis later).1, fun _ => start⟩
          rw [isNamePart_of_isNameStart start, Bool.true_or]
      | false =>
          refine ⟨?_, fun fresh => absurd fresh Bool.false_ne_true⟩
          by_cases point : character = '.'
          · have later : TokenClass.namesGoOn true others = true := by
              simpa [TokenClass.namesGoOn, point] using names
            obtain ⟨tail, starts⟩ := inductionHypothesis later
            refine goesOn ?_ tail
            rw [point, starts rfl]
            rfl
          · obtain ⟨part, later⟩ : isNamePart character = true ∧
                TokenClass.namesGoOn false others = true := by
              simpa [TokenClass.namesGoOn, point] using names
            refine goesOn ?_ (inductionHypothesis later).1
            rw [part, Bool.true_or]

theorem finds_name : Finds .name where
  sound := by
    intro text taken rest found
    cases text with
    | nil => cases found
    | cons first others =>
        change name? (first :: others) = _ at found
        rw [name?] at found
        split at found
        · rename_i starts
          obtain ⟨rfl, rfl⟩ := Prod.mk.inj (Option.some.inj found)
          rw [Bool.or_eq_true, Bool.and_eq_true, beq_iff_eq] at starts
          rcases starts with start | ⟨rfl, start⟩
          · refine .inl ?_
            simp [TokenClass.namesGoOn, start, (nameTail_sound others).1]
          · exact .inr ⟨_, rfl, (nameTail_sound others).2 start⟩
        · cases found
  complete := by
    rintro taken rest (names | ⟨later, rfl, names⟩)
    · cases taken with
      | nil => cases names
      | cons first others =>
          obtain ⟨start, later⟩ : isNameStart first = true ∧
              TokenClass.namesGoOn false others = true := by
            simpa [TokenClass.namesGoOn] using names
          refine ⟨first :: (nameTail (others ++ rest)).1, (nameTail (others ++ rest)).2, ?_,
            Nat.succ_le_succ (length_nameTail later rest).1⟩
          change name? (first :: (others ++ rest)) = _
          rw [name?, start, Bool.true_or, if_pos rfl]
    · obtain ⟨length, starts⟩ := length_nameTail names rest
      refine ⟨'.' :: (nameTail (later ++ rest)).1, (nameTail (later ++ rest)).2, ?_,
        Nat.succ_le_succ length⟩
      change name? ('.' :: (later ++ rest)) = _
      rw [name?, starts rfl, if_pos (by decide)]

theorem finds_symbol : Finds .symbol where
  sound := by
    intro text taken rest found
    cases text with
    | nil => cases found
    | cons first others =>
        change symbol? (first :: others) = _ at found
        rw [symbol?] at found
        split at found
        · rename_i symbol
          obtain ⟨rfl, rfl⟩ := Prod.mk.inj (Option.some.inj found)
          exact ⟨first, rfl, symbol⟩
        · cases found
  complete := by
    rintro _ rest ⟨character, rfl, symbol⟩
    refine ⟨[character], rest, ?_, Nat.le_refl _⟩
    change symbol? (character :: rest) = _
    rw [symbol?, if_pos symbol]

theorem finds_blank : Finds .blank where
  sound := by
    intro text taken rest found
    change blank? text = _ at found
    unfold blank? at found
    split at found
    · cases found
    · rename_i nonempty
      obtain ⟨rfl, rfl⟩ := Prod.mk.inj (Option.some.inj found)
      exact ⟨fun empty => nonempty (List.isEmpty_iff.mpr empty),
        fun character member => List.all_eq_true.mp List.all_takeWhile character member⟩
  complete := by
    rintro taken rest ⟨nonempty, blank⟩
    have longer : ((taken ++ rest).takeWhile Text.isBlank) =
        taken ++ rest.takeWhile Text.isBlank :=
      List.takeWhile_append_of_pos blank
    refine ⟨_, (taken ++ rest).dropWhile Text.isBlank, if_neg ?_, ?_⟩
    · rw [longer]
      exact fun empty => nonempty (List.append_eq_nil_iff.mp (List.isEmpty_iff.mp empty)).1
    · rw [longer, List.length_append]
      omega

theorem finds (kind : LexemeKind) : Finds kind := by
  cases kind with
  | comment => exact finds_comment
  | quoted => exact finds_quoted
  | number => exact finds_number
  | name => exact finds_name
  | symbol => exact finds_symbol
  | blank => exact finds_blank

end Lexeme

end ProtoWire.Proto
