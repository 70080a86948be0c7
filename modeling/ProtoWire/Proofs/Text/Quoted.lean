import ProtoWire.Text.Quoted

/-!
Contract: quoted text is read back.

Owns:
- the forms of a character inside of the quotes;
- reading a text between the quotes that it was written in.

Does not own: what stands before or behind the quotes.
-/

namespace ProtoWire.Quoted

/-- A character is written as an escape of one letter, as an escape of four digits, or as it is. -/
theorem escape_cases (character : Char) :
    (∃ letter, escape character = ['\\', letter] ∧ letter ≠ '\n' ∧ letter ≠ 'u' ∧
      escaped? letter = some character) ∨
    (character.toNat < 32 ∧ escape character = '\\' :: 'u' :: Hex.fixed 4 character.toNat) ∨
    (32 ≤ character.toNat ∧ character ≠ '"' ∧ character ≠ '\\' ∧
      escape character = [character]) := by
  unfold escape
  split
  case h_8 noMark noSlash _ _ _ _ _ =>
    split
    · rename_i small
      exact .inr (.inl ⟨small, rfl⟩)
    · rename_i large
      exact .inr (.inr ⟨Nat.le_of_not_lt large, noMark, noSlash, rfl⟩)
  all_goals exact .inl ⟨_, rfl, by decide, by decide, rfl⟩

/-- The digits of a control character. -/
private theorem exists_fixed {code : Nat} (small : code < 32) :
    ∃ first second third fourth, Hex.fixed 4 code = [first, second, third, fourth] ∧
      Hex.number? [first, second, third, fourth] = some code := by
  have number : Hex.number? (Hex.fixed 4 code) = some code :=
    Hex.number?_fixed (Nat.lt_trans small (by decide))
  exact ⟨_, _, _, _, rfl, number⟩

/-- What is written for a character is read as this character. -/
theorem decodeBody_escape (character : Char) (rest : List Char) :
    decodeBody (escape character ++ rest) =
      (decodeBody rest).map fun (text, behind) => (character :: text, behind) := by
  rcases escape_cases character with ⟨letter, form, -, noDigits, known⟩ | ⟨small, form⟩ |
    ⟨large, noMark, noSlash, form⟩
  · have noHex : ∀ a b c d more, letter = 'u' → rest = a :: b :: c :: d :: more → False :=
      fun _ _ _ _ _ same _ => noDigits same
    rw [form]
    simp only [List.cons_append, List.nil_append, decodeBody.eq_4 letter rest noHex, known]
  · obtain ⟨first, second, third, fourth, digits, number⟩ := exists_fixed small
    have noHigh : isHighSurrogate character.toNat = false := by
      rw [isHighSurrogate, decide_eq_false (by omega : ¬ 0xD800 ≤ character.toNat), Bool.false_and]
    have noLow : isLowSurrogate character.toNat = false := by
      rw [isLowSurrogate, decide_eq_false (by omega : ¬ 0xDC00 ≤ character.toNat), Bool.false_and]
    rw [form, digits]
    change decodeBody ('\\' :: 'u' :: first :: second :: third :: fourth :: rest) = _
    rw [decodeBody, number]
    simp only [noHigh, noLow, Bool.false_eq_true, if_false, Char.ofNat_toNat]
  · have plain : ¬ (decide (character.toNat < 32) || decide (character = '\\')) = true := by
      simp only [noSlash, decide_false, Bool.or_false, decide_eq_true_eq]
      omega
    rw [form, List.singleton_append, decodeBody, if_neg plain]
    · exact noMark
    · exact fun _ _ _ _ _ same _ => noSlash same
    · exact fun _ _ same _ => noSlash same

theorem decodeBody_encode (text rest : List Char) :
    decodeBody (text.flatMap escape ++ '"' :: rest) = some (text, rest) := by
  induction text with
  | nil => rfl
  | cons character others inductionHypothesis =>
      rw [List.flatMap_cons, List.append_assoc, decodeBody_escape, inductionHypothesis]
      rfl

end ProtoWire.Quoted
