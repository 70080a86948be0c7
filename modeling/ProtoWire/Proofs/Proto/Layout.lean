import ProtoWire.Proofs.Proto.Repetition
import ProtoWire.Proofs.Proto.Scanning

/-!
Contract: layout does not matter. Words that blanks and comments keep apart are cut as they were cut
in any other text, and their tokens stand for the same file up to positions.

Owns:
- separators, and texts in which they stand between words;
- lexemes that end where a separator starts.

Does not own: the positions of the tokens.
-/

namespace ProtoWire.Proto

namespace Lexeme

/-! ### Separators -/

/-- Blanks, block comments, and line comments with the line feed behind them. -/
inductive IsSeparator : List Char → Prop where
  | nil : IsSeparator []
  | blank
      {character : Char}
      {others : List Char}
      (blank : Text.isBlank character = true)
      (later : IsSeparator others) :
      IsSeparator (character :: others)
  | block
      {comment others : List Char}
      (complete : IsBlockComment comment)
      (later : IsSeparator others) :
      IsSeparator (comment ++ others)
  | line
      {body others : List Char}
      (sameLine : '\n' ∉ body)
      (later : IsSeparator others) :
      IsSeparator ('/' :: '/' :: (body ++ '\n' :: others))

/-- The first characters of blanks and of comments. -/
def isBreak (character : Char) : Bool :=
  Text.isBlank character || character == '/'

/-- Nothing stands behind a word, or a break. -/
def Breaks (behind : List Char) : Prop :=
  ∀ next more, behind = next :: more → isBreak next = true

theorem IsSeparator.isGap {separator : List Char} (isSeparator : IsSeparator separator)
    (behind : List Char) : IsGap separator behind := by
  induction isSeparator with
  | nil => exact .nil
  | blank blank _ inductionHypothesis => exact .blank blank inductionHypothesis
  | block complete _ inductionHypothesis => exact .comment (.inr complete) inductionHypothesis
  | @line body others sameLine _ inductionHypothesis =>
      have stops : ∀ next more, '\n' :: others ++ behind = next :: more → next = '\n' := by
        rintro next more same
        exact (List.cons.inj same).1.symm
      have comment : Fits .comment ('/' :: '/' :: body) ('\n' :: others ++ behind) :=
        .inl ⟨body, rfl, sameLine, stops⟩
      exact .comment comment (.blank (by decide) inductionHypothesis)

theorem IsSeparator.breaks {separator behind : List Char} (isSeparator : IsSeparator separator)
    (nonempty : separator ≠ []) : Breaks (separator ++ behind) := by
  intro next more same
  cases isSeparator with
  | nil => exact absurd rfl nonempty
  | blank blank _ =>
      obtain rfl := (List.cons.inj same).1
      rw [isBreak, blank, Bool.true_or]
  | block complete _ =>
      obtain ⟨body, rfl, -⟩ := complete
      obtain rfl := (List.cons.inj same).1
      decide
  | line _ _ =>
      obtain rfl := (List.cons.inj same).1
      decide

/-! ### Characters of words -/

private theorem not_break_of_isWordCharacter {character : Char}
    (word : Text.isWordCharacter character = true) : isBreak character = false := by
  have apart : Text.blankRanges.all (fun blanks => Text.foreignWordRanges.all fun range =>
      Nat.blt blanks.2 range.1 || Nat.blt range.2 blanks.1) = true := by
    decide +kernel
  by_cases ascii : character.toNat < 128
  · exact forall_ascii
      (fun character => Text.isWordCharacter character = true → isBreak character = false)
      (by decide +kernel) ascii word
  · rw [Text.isWordCharacter, if_neg ascii, CodePointRanges.contains, List.any_eq_true] at word
    obtain ⟨range, member, bounds⟩ := word
    have noSlash : (character == '/') = false := by
      refine beq_false_of_ne ?_
      rintro rfl
      exact ascii (by decide)
    rw [isBreak, noSlash, Bool.or_false, Text.isBlank, CodePointRanges.contains, List.any_eq_false]
    intro blanks blankMember inside
    have disjoint := List.all_eq_true.mp (List.all_eq_true.mp apart blanks blankMember) range member
    simp only [Bool.and_eq_true, Bool.or_eq_true, decide_eq_true_eq, Nat.blt_eq] at *
    omega

private theorem isWordCharacter_of_isNamePart {character : Char}
    (part : isNamePart character = true) : Text.isWordCharacter character = true := by
  have cases : character.isAlpha = true ∨ character.isDigit = true ∨ character = '_' := by
    simpa [isNamePart, Char.isAlphanum, or_assoc] using part
  have ascii : character.toNat < 128 := by
    rcases cases with letter | digit | rfl
    · have range := @toNat_of_isNameStart character (by simp [isNameStart, letter])
      omega
    · have range := toNat_of_isDigit digit
      omega
    · decide
  rw [Text.isWordCharacter, if_pos ascii]
  exact part

private theorem not_break_of_namesGoOn
    {text : List Char}
    {fresh : Bool}
    (names : TokenClass.namesGoOn fresh text = true) :
    ∀ character ∈ text, isBreak character = false := by
  induction text generalizing fresh with
  | nil => exact nofun
  | cons first others inductionHypothesis =>
      have both : isBreak first = false ∧ ∃ behind, TokenClass.namesGoOn behind others = true := by
        cases fresh with
        | true =>
            obtain ⟨start, later⟩ : isNameStart first = true ∧
                TokenClass.namesGoOn false others = true := by
              simpa [TokenClass.namesGoOn] using names
            exact ⟨not_break_of_isWordCharacter
              (isWordCharacter_of_isNamePart (isNamePart_of_isNameStart start)), _, later⟩
        | false =>
            by_cases point : first = '.'
            · refine ⟨by rw [point]; decide, true, ?_⟩
              simpa [TokenClass.namesGoOn, point] using names
            · obtain ⟨part, later⟩ : isNamePart first = true ∧
                  TokenClass.namesGoOn false others = true := by
                simpa [TokenClass.namesGoOn, point] using names
              exact ⟨not_break_of_isWordCharacter (isWordCharacter_of_isNamePart part), _, later⟩
      obtain ⟨solid, behind, later⟩ := both
      intro character member
      rcases List.mem_cons.mp member with rfl | inside
      · exact solid
      · exact inductionHypothesis later character inside

private theorem not_break_of_isName {text : List Char} (name : IsName text) :
    ∀ character ∈ text, isBreak character = false := by
  rcases name with names | ⟨rest, rfl, names⟩
  · exact not_break_of_namesGoOn names
  · intro character member
    rcases List.mem_cons.mp member with rfl | inside
    · decide
    · exact not_break_of_namesGoOn names character inside

private theorem not_break_of_isDigits {text : List Char} (digits : IsDigits text) :
    ∀ character ∈ text, isBreak character = false :=
  fun character member =>
    not_break_of_isWordCharacter (isWordCharacter_of_isAnyDigit (digits.2 character member))

private theorem not_break_of_isDecimal {text : List Char} (decimal : IsDecimal text) :
    ∀ character ∈ text, isBreak character = false := by
  obtain ⟨whole, fraction, exponent, rfl, digits, isFraction, isExponent⟩ := decimal
  have inFraction : ∀ character ∈ fraction, isBreak character = false := by
    rcases isFraction with rfl | ⟨more, rfl, moreDigits⟩
    · exact nofun
    · exact List.forall_mem_cons.mpr ⟨by decide, not_break_of_isDigits moreDigits⟩
  have inExponent : ∀ character ∈ exponent, isBreak character = false := by
    rcases isExponent with rfl | ⟨letter, sign, more, rfl, isLetter, isSign, moreDigits⟩
    · exact nofun
    · refine List.forall_mem_cons.mpr ⟨?_, List.forall_mem_append.mpr ⟨?_, ?_⟩⟩
      · rcases isLetter with rfl | rfl <;> decide
      · rcases isSign with rfl | rfl | rfl
        · exact nofun
        · exact List.forall_mem_singleton.mpr (by decide)
        · exact List.forall_mem_singleton.mpr (by decide)
      · exact not_break_of_isDigits moreDigits
  exact List.forall_mem_append.mpr
    ⟨not_break_of_isDigits digits, List.forall_mem_append.mpr ⟨inFraction, inExponent⟩⟩

private theorem not_break_of_isNumber {text : List Char} (number : IsNumber text) :
    ∀ character ∈ text, isBreak character = false := by
  have unsigned {magnitude : List Char} (shape : IsUnsigned magnitude) :
      ∀ character ∈ magnitude, isBreak character = false := by
    rcases shape with ⟨letter, digits, rfl, isLetter, -, hexadecimal⟩ | decimal
    · refine List.forall_mem_cons.mpr ⟨by decide, List.forall_mem_cons.mpr ⟨?_, ?_⟩⟩
      · rcases isLetter with rfl | rfl <;> decide
      · intro character member
        exact not_break_of_isWordCharacter (isWordCharacter_of_isHexDigit (hexadecimal _ member))
    · exact not_break_of_isDecimal decimal
  rcases number with shape | ⟨magnitude, rfl, shape⟩
  · exact unsigned shape
  · exact List.forall_mem_cons.mpr ⟨by decide, unsigned shape⟩

/-! ### Words in front of breaks -/

/-- A break behind a text is no part of a longer one whose characters are no breaks. -/
private theorem length_le_of_breaks
    {text behind taken rest : List Char}
    (whole : text ++ behind = taken ++ rest)
    (breaks : Breaks behind)
    (solid : ∀ character ∈ taken, isBreak character = false) :
    taken.length ≤ text.length := by
  refine Nat.le_of_not_lt fun longer => ?_
  rcases List.append_eq_append_iff.mp whole with ⟨more, rfl, same⟩ | ⟨more, rfl, -⟩
  · cases more with
    | nil =>
        rw [List.append_nil] at longer
        exact Nat.lt_irrefl _ longer
    | cons next others =>
        have noBreak := solid next (List.mem_append_right text List.mem_cons_self)
        rw [breaks next (others ++ rest) same] at noBreak
        cases noBreak
  · rw [List.length_append] at longer
    omega

/-- A word is the next lexeme in front of every break. -/
theorem Leads.of_breaks
    {lexeme : Lexeme}
    {before behind : List Char}
    (leads : Leads lexeme before)
    (isToken : lexeme.isToken = true)
    (breaks : Breaks behind) :
    Leads lexeme behind := by
  obtain ⟨kind, text⟩ := lexeme
  obtain ⟨first, others, same, starts⟩ := exists_opens leads.1
  have fits := leads.1
  have only {other : LexemeKind} {taken rest : List Char} (whole : text ++ behind = taken ++ rest)
      (otherFits : Fits other taken rest) : other = kind := by
    obtain ⟨head, tail, equal, begins⟩ := exists_opens otherFits
    obtain same : text = first :: others := same
    rw [same, equal] at whole
    obtain rfl : first = head := (List.cons.inj whole).1
    exact kind_of_opens begins starts
  cases kind with
  | comment => cases isToken
  | blank => cases isToken
  | quoted =>
      refine ⟨fits, fun other taken rest whole otherFits => ?_⟩
      obtain rfl := only whole otherFits
      have cut := quoted?_of_fits fits behind
      have whole : text ++ behind = taken ++ rest := whole
      rw [whole, quoted?_of_fits otherFits rest] at cut
      obtain ⟨rfl, -⟩ := Prod.mk.inj (Option.some.inj cut)
      exact Nat.le_refl _
  | number =>
      have ends : atWordEnd behind = true := by
        cases behind with
        | nil => rfl
        | cons next more =>
            rw [atWordEnd, Bool.not_eq_true', Bool.eq_false_iff]
            intro word
            have noBreak := not_break_of_isWordCharacter word
            rw [breaks next more rfl] at noBreak
            cases noBreak
      refine ⟨⟨fits.1, ends⟩, fun other taken rest whole otherFits => ?_⟩
      obtain rfl := only whole otherFits
      exact length_le_of_breaks whole breaks (not_break_of_isNumber otherFits.1)
  | name =>
      refine ⟨fits, fun other taken rest whole otherFits => ?_⟩
      obtain rfl := only whole otherFits
      exact length_le_of_breaks whole breaks (not_break_of_isName otherFits)
  | symbol =>
      refine ⟨fits, fun other taken rest whole otherFits => ?_⟩
      obtain rfl := only whole otherFits
      obtain ⟨character, rfl, -⟩ := otherFits
      exact List.length_pos_iff.mpr leads.text_ne_nil

end Lexeme

namespace Token

open Lexeme

/-- A text that starts with a separator and goes on with words that have a separator each behind
them. -/
def spread (lead : List Char) (parts : List (String × List Char)) : List Char :=
  lead ++ parts.flatMap fun part => part.1.toList ++ part.2

/-- The tokens of a text stand in the same way between other separators. -/
private theorem breaks_behind_word
    {part : String × List Char}
    {others : List (String × List Char)}
    (isSeparator : IsSeparator part.2)
    (nonempty : ∀ piece ∈ (part :: others).dropLast, piece.2 ≠ []) :
    Breaks (spread part.2 others) := by
  by_cases empty : part.2 = []
  · cases others with
    | nil =>
        intro next more same
        rw [spread, empty] at same
        cases same
    | cons other more => exact absurd empty (nonempty part List.mem_cons_self)
  · exact isSeparator.breaks empty

/-- The words of a text can be laid out with other separators. -/
theorem Laid.exists_spread
    {before text : List Char}
    {tokens : List Token}
    (laid : Laid before text tokens)
    {lead : List Char}
    {parts : List (String × List Char)}
    (texts : tokens.map Token.text = parts.map Prod.fst ++ [""])
    (isSeparator : IsSeparator lead)
    (areSeparators : ∀ part ∈ parts, IsSeparator part.2)
    (nonempty : ∀ part ∈ parts.dropLast, part.2 ≠ [])
    (front : List Char) :
    ∃ again, Laid front (spread lead parts) again ∧ again.map Token.text = tokens.map Token.text := by
  induction laid generalizing lead parts front with
  | ending _ =>
      cases parts with
      | nil =>
          refine ⟨_, .ending ?_, rfl⟩
          rw [spread, List.flatMap_nil, List.append_nil]
          exact isSeparator.isGap []
      | cons part others =>
          have rest := (List.cons.inj texts).2
          exact absurd rest.symm (List.append_ne_nil_of_right_ne_nil _ (List.cons_ne_nil _ _))
  | @word before gap rest lexeme tokens _ isToken full leads later inductionHypothesis =>
      cases parts with
      | nil =>
          obtain rfl := List.map_eq_nil_iff.mp (List.cons.inj texts).2
          cases later
      | cons part others =>
          obtain ⟨word, wordsBehind⟩ := List.cons.inj texts
          have characters : part.1.toList = lexeme.text := by
            rw [← word, String.toList_ofList]
          have apart : ∀ piece ∈ others.dropLast, piece.2 ≠ [] := by
            intro piece member
            refine nonempty piece ?_
            cases others with
            | nil => cases member
            | cons other more => exact List.mem_cons_of_mem part member
          obtain ⟨again, laid, same⟩ := inductionHypothesis wordsBehind
            (areSeparators part List.mem_cons_self)
            (fun other member => areSeparators other (List.mem_cons_of_mem _ member))
            apart (front ++ lead ++ lexeme.text)
          have breaks := breaks_behind_word (areSeparators part List.mem_cons_self) nonempty
          have whole : spread lead (part :: others) =
              lead ++ (lexeme.text ++ spread part.2 others) := by
            rw [spread, spread, List.flatMap_cons, characters, List.append_assoc]
          refine ⟨⟨String.ofList lexeme.text, .after (front ++ lead)⟩ :: again, ?_, ?_⟩
          · rw [whole]
            exact .word (isSeparator.isGap _) isToken full (leads.of_breaks isToken breaks) laid
          · rw [List.map_cons, List.map_cons, same]

/-- Layout does not matter. The words of a text that is cut into tokens, with separators of blanks
and comments between them, are cut into tokens with the same texts. These stand for a file if and
only if the others do, and for the same one up to positions. -/
theorem scan_spread
    {text : String}
    {tokens : List Token}
    (accepted : scan text = .ok tokens)
    {lead : List Char}
    {parts : List (String × List Char)}
    (texts : tokens.map Token.text = parts.map Prod.fst ++ [""])
    (isSeparator : IsSeparator lead)
    (areSeparators : ∀ part ∈ parts, IsSeparator part.2)
    (nonempty : ∀ part ∈ parts.dropLast, part.2 ≠ []) :
    ∃ again, scan (String.ofList (spread lead parts)) = .ok again ∧
      again.map Token.text = tokens.map Token.text ∧
      (FileDecl.ofTokens again).toOption.map FileDecl.unplaced =
        (FileDecl.ofTokens tokens).toOption.map FileDecl.unplaced := by
  obtain ⟨again, laid, same⟩ :=
    (scan_eq_ok_iff.mp accepted).exists_spread texts isSeparator areSeparators nonempty []
  refine ⟨again, ?_, same, FileDecl.toOption_ofTokens_again (same.trans texts) texts⟩
  rw [scan_eq_ok_iff, String.toList_ofList]
  exact laid

/-- The tokens of a message without anything inside, as they stand in a text with single blanks. -/
def bareMessageTokens : List Token :=
  [⟨"message", .first⟩, ⟨"M", ⟨1, 9⟩⟩, ⟨"\x7b", ⟨1, 11⟩⟩, ⟨"\x7d", ⟨1, 13⟩⟩, ⟨"", ⟨1, 14⟩⟩]

/-- A tab, a block comment, and a line comment with an empty line stand for blanks. -/
theorem scan_spread_comments :
    scan "message M \x7b \x7d" = .ok bareMessageTokens ∧
    ∃ again, scan "message\tM/**/\x7b//c\n\n\x7d" = .ok again ∧
      again.map Token.text = ["message", "M", "\x7b", "\x7d", ""] ∧
      (FileDecl.ofTokens again).toOption.map FileDecl.unplaced =
        some ⟨.proto2, none, [], [⟨"M", .first, [], [], [], [], []⟩], [], []⟩ := by
  have accepted : scan "message M \x7b \x7d" = .ok bareMessageTokens :=
    Outcome.eq_ok_of_toOption (by decide +kernel)
  have block : IsBlockComment ['/', '*', '*', '/'] := by
    refine ⟨[], rfl, fun front back same => ?_⟩
    have lengths := congrArg List.length same
    simp only [List.length_append, List.length_cons, List.length_nil] at lengths
    exact List.eq_nil_of_length_eq_zero (by omega)
  have line : IsSeparator ['/', '/', 'c', '\n', '\n'] :=
    @IsSeparator.line ['c'] ['\n'] (by decide) (.blank (by decide) .nil)
  have areSeparators : ∀ part ∈ [("message", ['\t']), ("M", ['/', '*', '*', '/']),
      ("\x7b", ['/', '/', 'c', '\n', '\n']), ("\x7d", [])], IsSeparator part.2 := by
    simp only [List.forall_mem_cons]
    exact ⟨.blank (by decide) .nil, .block block .nil, line, .nil, nofun⟩
  have laidOut := fun texts => scan_spread accepted texts .nil areSeparators (by decide)
  obtain ⟨again, acceptedAgain, same, files⟩ := laidOut rfl
  exact ⟨accepted, again, acceptedAgain, same, files.trans rfl⟩

end Token

end ProtoWire.Proto
