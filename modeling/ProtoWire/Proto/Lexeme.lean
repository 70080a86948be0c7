import ProtoWire.Text.Blank
import ProtoWire.Text.Digit
import ProtoWire.Text.Hex
import ProtoWire.Text.WordCharacter

/-!
Contract: the smallest parts of a source text: blanks, comments, quoted texts, numbers,
names and symbols.

Owns:
- one splitter per class, which cuts a lexeme off the front of a text;
- the choice between the classes, and the cut of a whole text into lexemes;
- the law that nothing is lost by a cut.

Does not own: positions, or which lexemes are tokens.
-/

namespace ProtoWire.Proto

/-- The classes of lexemes. -/
inductive LexemeKind where
  | comment
  | quoted
  | number
  | name
  | symbol
  | blank
deriving DecidableEq, Repr

/-- A part of a source text. -/
structure Lexeme where
  kind : LexemeKind
  text : List Char
deriving DecidableEq, Repr

/-- What a splitter finds: the lexeme and the text behind it. -/
abbrev Split : Type :=
  Option (List Char × List Char)

/-- Puts characters in front of a lexeme. -/
def Split.after (taken : List Char) (split : Split) : Split :=
  split.map fun (text, rest) => (taken ++ text, rest)

namespace Lexeme

/-! ### Characters -/

/-- Letters of ASCII and the underscore start a name. -/
def isNameStart (character : Char) : Bool :=
  character.isAlpha || character == '_'

/-- Names go on with digits of ASCII as well. -/
def isNamePart (character : Char) : Bool :=
  character.isAlphanum || character == '_'

def isHexDigit (character : Char) : Bool :=
  (Hex.value? character).isSome

def isSymbol (character : Char) : Bool :=
  ['=', ';', '\x7b', '\x7d', '[', ']', '<', '>', ',', '(', ')'].contains character

/-! ### Comments -/

/-- Cuts behind the first star and slash. -/
def throughStarSlash : List Char → Split
  | '*' :: '/' :: rest => some (['*', '/'], rest)
  | character :: rest => (throughStarSlash rest).after [character]
  | [] => none

/-- A comment to the end of its line, or one between its marks. -/
def comment? : List Char → Split
  | '/' :: '/' :: rest =>
      some ('/' :: '/' :: rest.takeWhile (· != '\n'), rest.dropWhile (· != '\n'))
  | '/' :: '*' :: rest => (throughStarSlash rest).after ['/', '*']
  | _ => none

/-! ### Quoted texts -/

/-- Cuts behind the first mark that no backslash precedes. A line break ends the search. -/
def throughMark (mark : Char) : List Char → Split
  | [] => none
  | '\\' :: character :: rest =>
      if character = '\n' then none else (throughMark mark rest).after ['\\', character]
  | character :: rest =>
      if character = mark then some ([character], rest)
      else if character = '\\' ∨ character = '\n' then none
      else (throughMark mark rest).after [character]

/-- Text between two equal marks on one line. -/
def quoted? : List Char → Split
  | '"' :: rest => (throughMark '"' rest).after ['"']
  | '\'' :: rest => (throughMark '\'' rest).after ['\'']
  | _ => none

/-! ### Numbers -/

/-- Whether no word goes on at the front of a text. -/
def atWordEnd : List Char → Bool
  | [] => true
  | character :: _ => !Text.isWordCharacter character

/-- A point and at least one digit. -/
def fraction? : List Char → Split
  | '.' :: rest =>
      if (rest.takeWhile Text.isAnyDigit).isEmpty then none
      else some ('.' :: rest.takeWhile Text.isAnyDigit, rest.dropWhile Text.isAnyDigit)
  | _ => none

/-- A run of at least one digit. -/
def digits? (rest : List Char) : Split :=
  if (rest.takeWhile Text.isAnyDigit).isEmpty then none
  else some (rest.takeWhile Text.isAnyDigit, rest.dropWhile Text.isAnyDigit)

/-- A letter E, perhaps a sign, and at least one digit. -/
def exponent? : List Char → Split
  | letter :: rest =>
      if letter = 'e' ∨ letter = 'E' then
        match rest with
        | sign :: more =>
            if sign = '+' ∨ sign = '-' then (digits? more).after [letter, sign]
            else (digits? rest).after [letter]
        | [] => none
      else none
  | [] => none

/-- What is found by a splitter or, failing that, nothing at all. -/
def optional (splitter : List Char → Split) (text : List Char) :
    List (List Char × List Char) :=
  (splitter text).toList ++ [([], text)]

/-- A zero, a letter X and at least one hexadecimal digit, up to the end of a word. -/
def hexadecimal? : List Char → Split
  | '0' :: letter :: rest =>
      if (letter = 'x' ∨ letter = 'X') ∧ ¬ (rest.takeWhile isHexDigit).isEmpty ∧
          atWordEnd (rest.dropWhile isHexDigit) then
        some ('0' :: letter :: rest.takeWhile isHexDigit, rest.dropWhile isHexDigit)
      else none
  | _ => none

/-- Digits with as much of a fraction and an exponent as leaves the end of a word. -/
def decimal? (text : List Char) : Split :=
  match digits? text with
  | none => none
  | some (whole, rest) =>
      ((optional fraction? rest).flatMap fun fraction =>
        (optional exponent? fraction.2).map fun exponent =>
          (whole ++ (fraction.1 ++ exponent.1), exponent.2)).find? fun split =>
        atWordEnd split.2

/-- A number without a sign. -/
def unsigned? (text : List Char) : Split :=
  (hexadecimal? text).or (decimal? text)

/-- A number with or without a minus sign. -/
def number? : List Char → Split
  | '-' :: rest => (unsigned? rest).after ['-']
  | text => unsigned? text

/-! ### Names -/

/-- Whether a name starts at the front of a text. -/
def startsName : List Char → Bool
  | [] => false
  | character :: _ => isNameStart character

/-- The part of a name, or of names joined by points, at the front of a text. -/
def nameTail : List Char → List Char × List Char
  | [] => ([], [])
  | character :: rest =>
      if isNamePart character || (character == '.' && startsName rest) then
        let tail := nameTail rest
        (character :: tail.1, tail.2)
      else ([], character :: rest)

/-- Names joined by points, perhaps behind a point. -/
def name? : List Char → Split
  | [] => none
  | character :: rest =>
      if isNameStart character || (character == '.' && startsName rest) then
        let tail := nameTail rest
        some (character :: tail.1, tail.2)
      else none

/-! ### Symbols and blanks -/

def symbol? : List Char → Split
  | [] => none
  | character :: rest => if isSymbol character then some ([character], rest) else none

def blank? (text : List Char) : Split :=
  if (text.takeWhile Text.isBlank).isEmpty then none
  else some (text.takeWhile Text.isBlank, text.dropWhile Text.isBlank)

/-! ### All classes -/

/-- The splitter of a class. -/
def splitter : LexemeKind → List Char → Split
  | .comment => comment?
  | .quoted => quoted?
  | .number => number?
  | .name => name?
  | .symbol => symbol?
  | .blank => blank?

/-- The classes in the order in which they are tried. -/
def kinds : List LexemeKind :=
  [.comment, .quoted, .number, .name, .symbol, .blank]

/-- The lexeme at the front of a text, and the text behind it. -/
def next? (text : List Char) : Option (Lexeme × List Char) :=
  kinds.findSome? fun kind => (splitter kind text).map fun (taken, rest) => (⟨kind, taken⟩, rest)

/-- A split cuts something off and loses nothing. -/
def Cuts (text : List Char) (split : Split) : Prop :=
  ∀ taken rest, split = some (taken, rest) → text = taken ++ rest ∧ taken ≠ []

private theorem cuts_none (text : List Char) : Cuts text none := by
  intro taken rest found
  cases found

private theorem cuts_some
    {text taken rest : List Char}
    (whole : text = taken ++ rest)
    (nonempty : taken ≠ []) :
    Cuts text (some (taken, rest)) := by
  intro other more found
  cases found
  exact ⟨whole, nonempty⟩

private theorem cuts_after
    (front : List Char)
    {text : List Char}
    {split : Split}
    (cuts : Cuts text split) :
    Cuts (front ++ text) (split.after front) := by
  intro taken rest found
  cases split with
  | none => cases found
  | some pair =>
    obtain ⟨inner, behind⟩ := pair
    obtain ⟨whole, nonempty⟩ := cuts inner behind rfl
    cases found
    subst whole
    exact ⟨(List.append_assoc ..).symm, fun empty => nonempty (List.append_eq_nil_iff.mp empty).2⟩

private theorem cuts_while
    (text : List Char)
    (test : Char → Bool) :
    Cuts text (if (text.takeWhile test).isEmpty then none
      else some (text.takeWhile test, text.dropWhile test)) := by
  split
  · exact cuts_none text
  · rename_i nonempty
    refine cuts_some List.takeWhile_append_dropWhile.symm ?_
    intro empty
    exact nonempty (by rw [empty]; rfl)

private theorem cuts_throughStarSlash (text : List Char) : Cuts text (throughStarSlash text) := by
  fun_induction throughStarSlash text with
  | case1 rest => exact cuts_some rfl (by simp)
  | case2 character rest _ step => exact cuts_after [character] step
  | case3 => exact cuts_none []

private theorem cuts_comment? (text : List Char) : Cuts text (comment? text) := by
  unfold comment?
  split
  · refine cuts_some ?_ (by simp)
    simp
  · exact cuts_after ['/', '*'] (cuts_throughStarSlash _)
  · exact cuts_none _

private theorem cuts_throughMark (mark : Char) (text : List Char) :
    Cuts text (throughMark mark text) := by
  fun_induction throughMark mark text with
  | case1 => exact cuts_none _
  | case2 => exact cuts_none _
  | case3 character rest _ step => exact cuts_after ['\\', character] step
  | case4 => exact cuts_some rfl (by simp)
  | case5 => exact cuts_none _
  | case6 character rest _ _ _ step => exact cuts_after [character] step

private theorem cuts_quoted? (text : List Char) : Cuts text (quoted? text) := by
  unfold quoted?
  split
  · exact cuts_after ['"'] (cuts_throughMark _ _)
  · exact cuts_after ['\''] (cuts_throughMark _ _)
  · exact cuts_none _

private theorem cuts_digits? (text : List Char) : Cuts text (digits? text) :=
  cuts_while text _

private theorem cuts_fraction? (text : List Char) : Cuts text (fraction? text) := by
  unfold fraction?
  split
  · split
    · exact cuts_none _
    · refine cuts_some ?_ (by simp)
      simp
  · exact cuts_none _

private theorem cuts_exponent? (text : List Char) : Cuts text (exponent? text) := by
  unfold exponent?
  split
  · rename_i letter rest
    split
    · split
      · rename_i sign more
        split
        · exact cuts_after [letter, sign] (cuts_digits? more)
        · exact cuts_after [letter] (cuts_digits? (sign :: more))
      · exact cuts_none _
    · exact cuts_none _
  · exact cuts_none _

private theorem cuts_hexadecimal? (text : List Char) : Cuts text (hexadecimal? text) := by
  unfold hexadecimal?
  split
  · split
    · refine cuts_some ?_ (by simp)
      simp
    · exact cuts_none _
  · exact cuts_none _

private theorem append_of_mem_optional
    {splitter : List Char → Split}
    {text taken rest : List Char}
    (cuts : Cuts text (splitter text))
    (member : (taken, rest) ∈ optional splitter text) :
    text = taken ++ rest := by
  simp only [optional, List.mem_append, Option.mem_toList, List.mem_singleton] at member
  rcases member with found | same
  · exact (cuts taken rest found).1
  · cases same
    rfl

private theorem cuts_decimal? (text : List Char) : Cuts text (decimal? text) := by
  unfold decimal?
  split
  · exact cuts_none _
  · rename_i whole rest split
    intro taken behind found
    have member := List.mem_of_find?_eq_some found
    simp only [List.mem_flatMap, List.mem_map, Prod.mk.injEq] at member
    obtain ⟨fraction, fractionMember, exponent, exponentMember, rfl, rfl⟩ := member
    obtain ⟨first, nonempty⟩ := cuts_digits? text whole rest split
    have second := append_of_mem_optional (cuts_fraction? rest) fractionMember
    have third := append_of_mem_optional (cuts_exponent? fraction.2) exponentMember
    refine ⟨?_, fun empty => nonempty (List.append_eq_nil_iff.mp empty).1⟩
    rw [first, second, third]
    simp

private theorem cuts_unsigned? (text : List Char) : Cuts text (unsigned? text) := by
  intro taken rest found
  unfold unsigned? at found
  cases hexadecimal : hexadecimal? text with
  | none =>
    rw [hexadecimal] at found
    exact cuts_decimal? text taken rest found
  | some pair =>
    rw [hexadecimal] at found
    cases found
    exact cuts_hexadecimal? text taken rest hexadecimal

private theorem cuts_number? (text : List Char) : Cuts text (number? text) := by
  unfold number?
  split
  · exact cuts_after ['-'] (cuts_unsigned? _)
  · exact cuts_unsigned? _

private theorem nameTail_append (text : List Char) :
    (nameTail text).1 ++ (nameTail text).2 = text := by
  induction text with
  | nil => rfl
  | cons character rest step =>
    unfold nameTail
    split
    · simp [step]
    · rfl

private theorem cuts_name? (text : List Char) : Cuts text (name? text) := by
  unfold name?
  split
  · exact cuts_none _
  · split
    · refine cuts_some ?_ (by simp)
      simp [nameTail_append]
    · exact cuts_none _

private theorem cuts_symbol? (text : List Char) : Cuts text (symbol? text) := by
  unfold symbol?
  split
  · exact cuts_none _
  · split
    · exact cuts_some rfl (by simp)
    · exact cuts_none _

theorem cuts_splitter (kind : LexemeKind) (text : List Char) :
    Cuts text (splitter kind text) := by
  cases kind with
  | comment => exact cuts_comment? text
  | quoted => exact cuts_quoted? text
  | number => exact cuts_number? text
  | name => exact cuts_name? text
  | symbol => exact cuts_symbol? text
  | blank => exact cuts_while text _

/-- A lexeme is cut off the front of the text, and nothing is lost. -/
theorem next?_eq_some
    {text rest : List Char}
    {lexeme : Lexeme}
    (found : next? text = some (lexeme, rest)) :
    text = lexeme.text ++ rest ∧ lexeme.text ≠ [] := by
  obtain ⟨kind, _, split⟩ := List.exists_of_findSome?_eq_some found
  obtain ⟨⟨taken, behind⟩, cut, same⟩ := Option.map_eq_some_iff.mp split
  cases same
  exact cuts_splitter kind text taken rest cut

/-- The lexemes at the front of a text, one behind the other, and the text at whose front
there is none. -/
def split (text : List Char) : List Lexeme × List Char :=
  match _found : next? text with
  | none => ([], text)
  | some (lexeme, rest) =>
      let tail := split rest
      (lexeme :: tail.1, tail.2)
termination_by text.length
decreasing_by
  all_goals
    obtain ⟨whole, nonempty⟩ := next?_eq_some _found
    have positive := List.length_pos_iff.mpr nonempty
    rw [whole, List.length_append]
    omega

end Lexeme

end ProtoWire.Proto
