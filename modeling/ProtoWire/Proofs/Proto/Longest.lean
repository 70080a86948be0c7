import ProtoWire.Proofs.Proto.Shapes

/-!
Contract: the next lexeme is the longest one of all classes.

Owns:
- the class of a lexeme by its first character;
- the next lexeme as the longest one, and texts at whose front there is none.

Does not own: the texts of each class, which lexemes are tokens, or runs of lexemes.
-/

namespace ProtoWire.Proto

namespace Lexeme

/-! ### The class of a lexeme -/

/-- Whether a character can be the first one of a lexeme of a class. -/
def opens (first : Char) : LexemeKind → Bool
  | .comment => first == '/'
  | .quoted => first == '"' || first == '\''
  | .number => first == '-' || Text.isAnyDigit first
  | .name => first == '.' || isNameStart first
  | .symbol => isSymbol first
  | .blank => Text.isBlank first

theorem exists_opens {kind : LexemeKind} {text behind : List Char} (fits : Fits kind text behind) :
    ∃ first others, text = first :: others ∧ opens first kind = true := by
  cases kind with
  | comment =>
      rcases fits with ⟨body, rfl, -⟩ | ⟨body, rfl, -⟩
      · exact ⟨'/', _, rfl, rfl⟩
      · exact ⟨'/', _, rfl, rfl⟩
  | quoted =>
      obtain ⟨mark, body, isMark, rfl, -⟩ := fits
      refine ⟨mark, _, rfl, ?_⟩
      rcases isMark with rfl | rfl <;> rfl
  | number =>
      obtain ⟨unsigned | ⟨unsigned, rfl, -⟩, -⟩ := fits
      · obtain ⟨first, others, same, digit⟩ := digit_of_isUnsigned unsigned
        exact ⟨first, others, same, by rw [opens, digit, Bool.or_true]⟩
      · exact ⟨'-', _, rfl, rfl⟩
  | name =>
      rcases fits with names | ⟨rest, rfl, -⟩
      · cases text with
        | nil => cases names
        | cons first others =>
            have start : isNameStart first = true := by
              rw [TokenClass.namesGoOn, if_pos rfl, Bool.and_eq_true] at names
              exact names.1
            exact ⟨first, others, rfl, by rw [opens, start, Bool.or_true]⟩
      · exact ⟨'.', _, rfl, rfl⟩
  | symbol =>
      obtain ⟨character, rfl, symbol⟩ := fits
      exact ⟨character, [], rfl, symbol⟩
  | blank =>
      obtain ⟨first, others, rfl⟩ := List.exists_cons_of_ne_nil fits.1
      exact ⟨first, others, rfl, fits.2 first List.mem_cons_self⟩

private theorem mem_kinds (kind : LexemeKind) : kind ∈ kinds := by
  cases kind <;> decide

/-- Outside of ASCII there are only digits and blanks. -/
private theorem small_of_opens
    {first : Char}
    {kind : LexemeKind}
    (starts : opens first kind = true)
    (noNumber : kind ≠ .number)
    (noBlank : kind ≠ .blank) :
    first.toNat < 128 := by
  cases kind with
  | comment =>
      obtain rfl : first = '/' := eq_of_beq starts
      decide
  | quoted =>
      simp only [opens, Bool.or_eq_true, beq_iff_eq] at starts
      rcases starts with rfl | rfl <;> decide
  | number => exact absurd rfl noNumber
  | name =>
      simp only [opens, Bool.or_eq_true, beq_iff_eq] at starts
      rcases starts with rfl | start
      · decide
      · have range := toNat_of_isNameStart start
        omega
  | symbol =>
      have member : first ∈ ['=', ';', '\x7b', '\x7d', '[', ']', '<', '>', ',', '(', ')'] :=
        List.contains_iff_mem.mp starts
      have small : ['=', ';', '\x7b', '\x7d', '[', ']', '<', '>', ',', '(', ')'].all
          (fun symbol => symbol.toNat.blt 128) = true := by
        decide
      exact Nat.blt_eq.mp (List.all_eq_true.mp small first member)
  | blank => exact absurd rfl noBlank

private theorem not_blank_of_isAnyDigit {first : Char} (digit : Text.isAnyDigit first = true)
    (large : ¬ first.toNat < 128) : Text.isBlank first = false := by
  have apart : ∀ digits ∈ Text.foreignDigitRanges, ∀ blanks ∈ Text.blankRanges,
      digits.2 < blanks.1 ∨ blanks.2 < digits.1 := by
    decide +kernel
  rw [Text.isAnyDigit, Bool.or_eq_true] at digit
  rcases digit with ascii | foreign
  · have range := toNat_of_isDigit ascii
    omega
  · rw [CodePointRanges.contains, List.any_eq_true] at foreign
    obtain ⟨digits, member, bounds⟩ := foreign
    rw [Text.isBlank, CodePointRanges.contains, List.any_eq_false]
    intro blanks blankMember inside
    have ordered := apart digits member blanks blankMember
    simp only [Bool.and_eq_true, decide_eq_true_eq] at bounds inside
    omega

/-- The first character of a lexeme tells its class. -/
theorem kind_of_opens
    {first : Char}
    {kind other : LexemeKind}
    (starts : opens first kind = true)
    (otherStarts : opens first other = true) :
    kind = other := by
  by_cases small : first.toNat < 128
  · exact forall_ascii
      (fun first => ∀ kind ∈ kinds, ∀ other ∈ kinds, opens first kind = true →
        opens first other = true → kind = other)
      (by decide +kernel) small kind (mem_kinds kind) other (mem_kinds other) starts otherStarts
  · have only {sort : LexemeKind} (begins : opens first sort = true) :
        sort = .number ∨ sort = .blank := by
      refine Decidable.byContradiction fun neither => ?_
      obtain ⟨noNumber, noBlank⟩ := not_or.mp neither
      exact small (small_of_opens begins noNumber noBlank)
    have digit (begins : opens first .number = true) : Text.isBlank first = false := by
      simp only [opens, Bool.or_eq_true, beq_iff_eq] at begins
      rcases begins with rfl | digit
      · exact absurd (by decide) small
      · exact not_blank_of_isAnyDigit digit small
    rcases only starts with rfl | rfl <;> rcases only otherStarts with rfl | rfl
    · rfl
    · rw [opens, digit starts] at otherStarts
      cases otherStarts
    · rw [opens, digit otherStarts] at starts
      cases starts
    · rfl

/-! ### The next lexeme -/

private theorem splitter_of_next?
    {text rest : List Char}
    {lexeme : Lexeme}
    (found : next? text = some (lexeme, rest)) :
    splitter lexeme.kind text = some (lexeme.text, rest) := by
  obtain ⟨kind, _, split⟩ := List.exists_of_findSome?_eq_some found
  obtain ⟨⟨taken, behind⟩, cut, same⟩ := Option.map_eq_some_iff.mp split
  obtain ⟨rfl, rfl⟩ := Prod.mk.inj same
  exact cut

private theorem splitter_eq_none
    {text : List Char}
    (nothing : next? text = none)
    {kind : LexemeKind} :
    splitter kind text = none :=
  Option.map_eq_none_iff.mp (List.findSome?_eq_none_iff.mp nothing kind (mem_kinds kind))

/-- Only one class has a lexeme at the front of a text. -/
theorem next?_of_splitter
    {kind : LexemeKind}
    {text taken rest : List Char}
    (found : splitter kind text = some (taken, rest)) :
    next? text = some (⟨kind, taken⟩, rest) := by
  cases next : next? text with
  | none =>
      rw [splitter_eq_none next] at found
      cases found
  | some pair =>
      obtain ⟨lexeme, behind⟩ := pair
      have cut := splitter_of_next? next
      obtain ⟨first, others, same, starts⟩ := exists_opens ((finds kind).sound found)
      obtain ⟨head, tail, equal, begins⟩ := exists_opens ((finds lexeme.kind).sound cut)
      have whole := (cuts_splitter kind text taken rest found).1
      rw [(next?_eq_some next).1, same, equal] at whole
      obtain rfl : head = first := (List.cons.inj whole).1
      obtain rfl : lexeme.kind = kind := kind_of_opens begins starts
      rw [found] at cut
      obtain ⟨rfl, rfl⟩ := Prod.mk.inj (Option.some.inj cut)
      rfl

/-- A lexeme stands in front of a text, and no longer one of any class does. -/
def Leads (lexeme : Lexeme) (behind : List Char) : Prop :=
  Fits lexeme.kind lexeme.text behind ∧
    ∀ (kind : LexemeKind) (taken rest : List Char), lexeme.text ++ behind = taken ++ rest →
      Fits kind taken rest → taken.length ≤ lexeme.text.length

theorem Leads.text_ne_nil {lexeme : Lexeme} {behind : List Char} (leads : Leads lexeme behind) :
    lexeme.text ≠ [] := by
  obtain ⟨first, others, same, -⟩ := exists_opens leads.1
  rw [same]
  exact List.cons_ne_nil first others

theorem next?_eq_some_iff {text rest : List Char} {lexeme : Lexeme} :
    next? text = some (lexeme, rest) ↔ text = lexeme.text ++ rest ∧ Leads lexeme rest := by
  constructor
  · intro found
    obtain ⟨rfl, -⟩ := next?_eq_some found
    refine ⟨rfl, (finds _).sound (splitter_of_next? found), fun kind taken behind whole fits => ?_⟩
    obtain ⟨longer, left, cut, length⟩ := (finds kind).complete fits
    rw [← whole] at cut
    have same := next?_of_splitter cut
    rw [found] at same
    obtain ⟨rfl, -⟩ := Prod.mk.inj (Option.some.inj same)
    exact length
  · rintro ⟨rfl, fits, longest⟩
    obtain ⟨longer, left, cut, length⟩ := (finds lexeme.kind).complete fits
    have whole := (cuts_splitter _ _ _ _ cut).1
    have shorter := longest lexeme.kind longer left whole ((finds _).sound cut)
    obtain ⟨same, rfl⟩ := List.append_inj whole (Nat.le_antisymm length shorter)
    rw [next?_of_splitter cut, ← same]

theorem next?_eq_none_iff {text : List Char} :
    next? text = none ↔
      ∀ (kind : LexemeKind) (taken behind : List Char), text = taken ++ behind →
        ¬ Fits kind taken behind := by
  constructor
  · intro nothing kind taken behind whole fits
    obtain ⟨longer, left, cut, -⟩ := (finds kind).complete fits
    rw [← whole, splitter_eq_none nothing] at cut
    cases cut
  · intro noneFits
    cases next : next? text with
    | none => rfl
    | some pair =>
        have cut := splitter_of_next? next
        exact absurd ((finds _).sound cut) (noneFits _ _ _ (next?_eq_some next).1)

end Lexeme

end ProtoWire.Proto
