import ProtoWire.Proofs.Proto.Scanning
import ProtoWire.Proofs.Text.Quoted

/-!
Contract: strings in the three places that know them. A string is written in quotes, a text is cut
behind its closing mark, and a token is tested and read as a string.

Owns:
- lexemes in marks as the tokens that pass the test for strings;
- quoted text as a lexeme in marks;
- the tokens and the value of quoted text.

Does not own: the escapes, or where the grammar asks for a string.
-/

namespace ProtoWire.Proto

open ProtoWire.Quoted

namespace Lexeme

/-! ### Texts in marks -/

theorem IsQuotable.append {mark : Char} {first second : List Char}
    (quotable : IsQuotable mark first) (later : IsQuotable mark second) :
    IsQuotable mark (first ++ second) := by
  induction quotable with
  | nil => exact later
  | plain noMark noBackslash noBreak _ inductionHypothesis =>
      exact .plain noMark noBackslash noBreak inductionHypothesis
  | escaped noBreak _ inductionHypothesis => exact .escaped noBreak inductionHypothesis

theorem isQuotable_of_plain {mark : Char} {text : List Char}
    (plain : ∀ character ∈ text, character ≠ mark ∧ character ≠ '\\' ∧ character ≠ '\n') :
    IsQuotable mark text := by
  induction text with
  | nil => exact .nil
  | cons character others inductionHypothesis =>
      have own := plain character List.mem_cons_self
      exact .plain own.1 own.2.1 own.2.2
        (inductionHypothesis fun other member => plain other (List.mem_cons_of_mem _ member))

theorem IsQuotable.not_mem_lineFeed {mark : Char} {body : List Char}
    (quotable : IsQuotable mark body) : '\n' ∉ body := by
  induction quotable with
  | nil => simp
  | plain _ _ noBreak _ inductionHypothesis => simp [noBreak.symm, inductionHypothesis]
  | escaped noBreak _ inductionHypothesis => simp [noBreak.symm, inductionHypothesis]

/-- A text in marks stands on one line. -/
theorem IsQuoted.not_mem_lineFeed {text : List Char} (quoted : IsQuoted text) : '\n' ∉ text := by
  obtain ⟨mark, body, isMark, rfl, quotable⟩ := quoted
  have noBreak : '\n' ≠ mark := by
    rcases isMark with rfl | rfl <;> decide
  simp [noBreak, quotable.not_mem_lineFeed]

theorem next?_of_isQuoted {text : List Char} (quoted : IsQuoted text) (behind : List Char) :
    next? (text ++ behind) = some (⟨.quoted, text⟩, behind) := by
  have found : splitter .quoted (text ++ behind) = some (text, behind) :=
    quoted?_of_fits quoted behind
  exact next?_of_splitter found

theorem isString_of_isQuoted {text : List Char} (quoted : IsQuoted text) :
    TokenClass.isString (String.ofList text) = true := by
  obtain ⟨mark, body, isMark, rfl, quotable⟩ := quoted
  have marked : TokenClass.isMark mark = true := by
    rcases isMark with rfl | rfl <;> rfl
  have sameLine : ∀ character ∈ body, character ≠ '\n' := fun character member lineFeed =>
    quotable.not_mem_lineFeed (lineFeed ▸ member)
  simpa [TokenClass.isString, marked] using sameLine

/-- The test for strings looks at the marks only, and the cut at the escapes before a mark as well.
They agree on lexemes: those in marks pass the test, and no others do. -/
theorem isString_iff_of_fits {kind : LexemeKind} {text behind : List Char}
    (fits : Fits kind text behind) :
    TokenClass.isString (String.ofList text) = true ↔ kind = .quoted := by
  constructor
  · intro string
    obtain ⟨first, others, rfl, starts⟩ := exists_opens fits
    -- The first character tells the class, so that the rest of the text is of no interest.
    have marked : opens first .quoted = true := by
      simp only [TokenClass.isString, String.toList_ofList, Bool.and_eq_true] at string
      exact string.1.1
    exact kind_of_opens starts marked
  · rintro rfl
    exact isString_of_isQuoted fits

/-! ### Quoted text -/

theorem isQuotable_escape (character : Char) : IsQuotable '"' (escape character) := by
  rcases escape_cases character with ⟨letter, form, noBreak, -⟩ | ⟨small, form⟩ |
    ⟨large, noMark, noBackslash, form⟩
  · rw [form]
    exact .escaped noBreak .nil
  · have plain : ∀ digit ∈ Hex.fixed 4 character.toNat,
        digit ≠ '"' ∧ digit ≠ '\\' ∧ digit ≠ '\n' := by
      intro digit member
      have isDigit := Hex.isSome_value?_of_mem_fixed member
      refine ⟨?_, ?_, ?_⟩ <;> (rintro rfl; exact absurd isDigit (by decide))
    rw [form]
    exact .escaped (by decide) (isQuotable_of_plain plain)
  · have noBreak : character ≠ '\n' := by
      rintro rfl
      exact absurd large (by decide)
    rw [form]
    exact .plain noMark noBackslash noBreak .nil

theorem isQuoted_encode (text : List Char) : IsQuoted (encode text) := by
  refine ⟨'"', text.flatMap escape, .inl rfl, rfl, ?_⟩
  induction text with
  | nil => exact .nil
  | cons character others inductionHypothesis =>
      rw [List.flatMap_cons]
      exact (isQuotable_escape character).append inductionHypothesis

end Lexeme

open Lexeme

theorem isWord_quote (text : String) : IsWord (quote text) := by
  have whole : (quote text).toList = encode text.toList := String.toList_ofList
  refine ⟨⟨'"', _, whole, by decide⟩, .quoted, rfl, fun rest _ => ?_⟩
  rw [whole]
  exact next?_of_isQuoted (isQuoted_encode text.toList) rest

theorem isString_quote (text : String) : TokenClass.isString (quote text) = true := by
  have fits : Fits .quoted (encode text.toList) [] := isQuoted_encode text.toList
  exact (isString_iff_of_fits fits).mpr rfl

theorem stringValue?_quote (text : String) :
    TokenClass.stringValue? (quote text) = some text := by
  have whole : (quote text).toList = '"' :: (text.toList.flatMap escape ++ ['"']) :=
    String.toList_ofList
  simp only [TokenClass.stringValue?, whole, decodeBody_encode, List.all_nil, if_true,
    String.ofList_toList]

/-- A backslash and the quote behind it are escaped one by one. -/
example : quote "\\\"" = "\"\\\\\\\"\"" ∧
    TokenClass.stringValue? "\"\\\\\\\"\"" = some "\\\"" := by decide

/-! ### Tokens of quoted text -/

namespace Token

/-- A text in marks is its own only token. -/
theorem scan_of_isQuoted {text : List Char} (quoted : IsQuoted text) :
    scan (String.ofList text) =
      .ok [⟨String.ofList text, .first⟩, .ending ⟨1, 1 + text.length⟩] := by
  have found := next?_of_isQuoted quoted []
  rw [List.append_nil] at found
  rw [scan_eq_scanFrom, String.toList_ofList, scanFrom_of_token _ found rfl, scanFrom_nil,
    Position.advance_after, List.nil_append, Position.after_of_not_mem quoted.not_mem_lineFeed]
  rfl

/-- Quoted text survives. Whatever the text is, it is one token in quotes on one line, this token
is a string, and the string is read as the text. -/
theorem quote_roundTrip (text : String) :
    scan (quote text) =
        .ok [⟨quote text, .first⟩, .ending ⟨1, 1 + (quote text).length⟩] ∧
      TokenClass.isString (quote text) = true ∧
      TokenClass.stringValue? (quote text) = some text := by
  have oneToken := scan_of_isQuoted (isQuoted_encode text.toList)
  rw [← String.length_ofList] at oneToken
  exact ⟨oneToken, isString_quote text, stringValue?_quote text⟩

end Token

end ProtoWire.Proto
