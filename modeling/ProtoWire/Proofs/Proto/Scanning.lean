import Mathlib.Data.List.TakeWhile
import ProtoWire.Proofs.Outcome
import ProtoWire.Proofs.Proto.Longest

/-!
Contract: what the tokens of a text are and where they stand. A text is its tokens and the gaps
around them, or it has a character at which no lexeme starts.

Owns:
- positions as numbers of characters;
- gaps of blanks and comments, and texts that tokens and gaps make up;
- the tokens of a text, and the position at which a text is refused.

Does not own: the texts of each class, or the grammar of tokens.
-/

namespace ProtoWire.Proto

open Lexeme

/-! ### Positions -/

/-- The position of the character behind a text. Line feeds count the lines, and the characters
since the last one count the columns. -/
def Position.after (before : List Char) : Position :=
  ⟨1 + before.count '\n', 1 + (before.reverse.takeWhile (· != '\n')).length⟩

theorem Position.advance_after (before text : List Char) :
    (Position.after before).advance text = Position.after (before ++ text) := by
  induction text generalizing before with
  | nil => rw [List.append_nil, Position.advance, List.foldl_nil]
  | cons character others inductionHypothesis =>
      have step : (Position.after before).next character = Position.after (before ++ [character]) := by
        by_cases lineFeed : character = '\n'
        · subst lineFeed
          simp [Position.next, Position.after, Nat.add_assoc]
        · simp [Position.next, Position.after, lineFeed, Nat.add_assoc, Nat.add_comm 1]
      rw [List.append_cons, ← inductionHypothesis, ← step]
      rfl

/-- Behind a text without a line feed, only the column has changed. -/
theorem Position.after_of_not_mem {before : List Char} (sameLine : '\n' ∉ before) :
    Position.after before = ⟨1, 1 + before.length⟩ := by
  have columns : before.reverse.takeWhile (· != '\n') = before.reverse := by
    rw [List.takeWhile_eq_self_iff]
    intro character member
    rw [bne_iff_ne]
    rintro rfl
    exact sameLine (List.mem_reverse.mp member)
  rw [Position.after, List.count_eq_zero_of_not_mem sameLine, columns, List.length_reverse]

/-! ### Texts of tokens and gaps -/

namespace Lexeme

/-- Blanks and complete comments in front of a text. -/
inductive IsGap : List Char → List Char → Prop where
  | nil {behind : List Char} : IsGap [] behind
  | blank
      {character : Char}
      {gap behind : List Char}
      (blank : Text.isBlank character = true)
      (later : IsGap gap behind) :
      IsGap (character :: gap) behind
  | comment
      {comment gap behind : List Char}
      (complete : Fits .comment comment (gap ++ behind))
      (later : IsGap gap behind) :
      IsGap (comment ++ gap) behind

/-- Lexemes that stand one behind the other in front of a text, each the longest one at its
place. -/
inductive IsRun : List Char → List Char → Prop where
  | nil {behind : List Char} : IsRun [] behind
  | cons
      {lexeme : Lexeme}
      {run behind : List Char}
      (leads : Leads lexeme (run ++ behind))
      (later : IsRun run behind) :
      IsRun (lexeme.text ++ run) behind

theorem isGap_of_blank {blanks : List Char} (behind : List Char)
    (blank : ∀ character ∈ blanks, Text.isBlank character = true) : IsGap blanks behind := by
  induction blanks with
  | nil => exact .nil
  | cons character others inductionHypothesis =>
      exact .blank (blank character List.mem_cons_self)
        (inductionHypothesis fun other member => blank other (List.mem_cons_of_mem _ member))

theorem IsGap.append {first second behind : List Char} (gap : IsGap first (second ++ behind))
    (later : IsGap second behind) : IsGap (first ++ second) behind := by
  generalize whole : second ++ behind = rest at gap
  induction gap with
  | nil => exact later
  | blank blank _ inductionHypothesis => exact .blank blank (inductionHypothesis whole)
  | comment complete _ inductionHypothesis =>
      subst whole
      rw [List.append_assoc]
      rw [← List.append_assoc] at complete
      exact .comment complete (inductionHypothesis rfl)

/-- Lexemes that are no tokens are gaps. -/
theorem Leads.isGap {lexeme : Lexeme} {behind : List Char} (leads : Leads lexeme behind)
    (noToken : lexeme.isToken = false) : IsGap lexeme.text behind := by
  obtain ⟨kind, text⟩ := lexeme
  have fits := leads.1
  cases kind with
  | comment =>
      rw [← List.append_nil text]
      exact .comment fits .nil
  | blank => exact isGap_of_blank behind fits.2
  | quoted => cases noToken
  | number => cases noToken
  | name => cases noToken
  | symbol => cases noToken

end Lexeme

/-- A text, behind another one, is made up of the words of tokens and of gaps before, between and
behind them. Each word is not empty, and each token has the position of its first character. The
last token is empty and stands at the end of the text. -/
inductive Token.Laid : List Char → List Char → List Token → Prop where
  | ending
      {before gap : List Char}
      (isGap : IsGap gap []) :
      Laid before gap [.ending (.after (before ++ gap))]
  | word
      {before gap rest : List Char}
      {lexeme : Lexeme}
      {tokens : List Token}
      (isGap : IsGap gap (lexeme.text ++ rest))
      (isToken : lexeme.isToken = true)
      (nonempty : lexeme.text ≠ [])
      (leads : Leads lexeme rest)
      (later : Laid (before ++ gap ++ lexeme.text) rest tokens) :
      Laid before (gap ++ (lexeme.text ++ rest))
        (⟨String.ofList lexeme.text, .after (before ++ gap)⟩ :: tokens)

namespace Token

theorem Laid.behind_gap
    {before gap text : List Char}
    {tokens : List Token}
    (isGap : IsGap gap text)
    (laid : Laid (before ++ gap) text tokens) :
    Laid before (gap ++ text) tokens := by
  cases laid with
  | ending later =>
      rw [List.append_assoc]
      rw [← List.append_nil text] at isGap
      exact .ending (isGap.append later)
  | @word _ second rest lexeme others later isToken nonempty leads laid =>
      rw [List.append_assoc before] at laid ⊢
      rw [← List.append_assoc gap]
      exact .word (isGap.append later) isToken nonempty leads laid

/-! ### Scanning from a position on -/

/-- The tokens of a text whose first character has a position. -/
def scanFrom (position : Position) (text : List Char) : Except SyntaxError (List Token) :=
  let parts := Lexeme.split text
  let final := positionBehind position parts.1
  if parts.2.isEmpty then .ok (ofLexemes position parts.1 ++ [.ending final])
  else .error ⟨.unknownText (snippet parts.2), final⟩

theorem scan_eq_scanFrom (text : String) : scan text = scanFrom (.after []) text.toList :=
  rfl

private theorem split_of_none {text : List Char} (nothing : next? text = none) :
    Lexeme.split text = ([], text) := by
  rw [Lexeme.split]
  split
  · rfl
  · rename_i found
    rw [nothing] at found
    cases found

theorem scanFrom_nil (position : Position) : scanFrom position [] = .ok [.ending position] := by
  rw [scanFrom, split_of_none rfl]
  rfl

theorem scanFrom_of_none
    {text : List Char}
    (position : Position)
    (nothing : next? text = none)
    (nonempty : text ≠ []) :
    scanFrom position text = .error ⟨.unknownText (snippet text), position⟩ := by
  rw [scanFrom, split_of_none nothing]
  exact if_neg fun empty => nonempty (List.isEmpty_iff.mp empty)

theorem scanFrom_of_token
    {text rest : List Char}
    {lexeme : Lexeme}
    (position : Position)
    (found : next? text = some (lexeme, rest))
    (isToken : lexeme.isToken = true) :
    scanFrom position text =
      (⟨String.ofList lexeme.text, position⟩ :: ·) <$>
        scanFrom (position.advance lexeme.text) rest := by
  rw [scanFrom, split_of_next? found, scanFrom]
  dsimp only
  rw [ofLexemes, if_pos isToken]
  split <;> rfl

theorem scanFrom_of_noToken
    {text rest : List Char}
    {lexeme : Lexeme}
    (position : Position)
    (found : next? text = some (lexeme, rest))
    (noToken : lexeme.isToken = false) :
    scanFrom position text = scanFrom (position.advance lexeme.text) rest := by
  rw [scanFrom, split_of_next? found, scanFrom]
  dsimp only
  rw [ofLexemes, if_neg (Bool.eq_false_iff.mp noToken)]
  rfl

/-- A blank is skipped, whether or not more of them follow. -/
private theorem scanFrom_blank
    {character : Char}
    (position : Position)
    (blank : Text.isBlank character = true)
    (text : List Char) :
    scanFrom position (character :: text) = scanFrom (position.advance [character]) text := by
  have cut : splitter .blank (character :: text) =
      some (character :: text.takeWhile Text.isBlank, text.dropWhile Text.isBlank) := by
    change blank? (character :: text) = _
    rw [blank?, List.takeWhile_cons_of_pos blank, List.dropWhile_cons_of_pos blank]
    rfl
  rw [scanFrom_of_noToken position (next?_of_splitter cut) rfl]
  by_cases more : text.takeWhile Text.isBlank = []
  · have same : text.dropWhile Text.isBlank = text := by
      have whole := @List.takeWhile_append_dropWhile _ Text.isBlank text
      rwa [more, List.nil_append] at whole
    rw [more, same]
  · have found : splitter .blank text =
        some (text.takeWhile Text.isBlank, text.dropWhile Text.isBlank) :=
      if_neg fun empty => more (List.isEmpty_iff.mp empty)
    rw [scanFrom_of_noToken (position.advance [character]) (next?_of_splitter found) rfl]
    exact congrArg (scanFrom · _)
      (Position.advance_append position [character] (text.takeWhile Text.isBlank))

theorem scanFrom_gap
    {gap behind : List Char}
    (position : Position)
    (isGap : IsGap gap behind) :
    scanFrom position (gap ++ behind) = scanFrom (position.advance gap) behind := by
  induction isGap generalizing position with
  | nil => rfl
  | blank blank _ inductionHypothesis =>
      rw [List.cons_append, scanFrom_blank position blank, inductionHypothesis]
      rfl
  | @comment comment gap behind complete _ inductionHypothesis =>
      have found : splitter .comment (comment ++ (gap ++ behind)) =
          some (comment, gap ++ behind) :=
        comment?_of_fits complete
      rw [List.append_assoc, scanFrom_of_noToken position (next?_of_splitter found) rfl,
        inductionHypothesis, Position.advance_append]

/-! ### Tokens and refusals -/

theorem scanFrom_of_laid
    {before text : List Char}
    {tokens : List Token}
    (laid : Laid before text tokens) :
    scanFrom (.after before) text = .ok tokens := by
  induction laid with
  | @ending before gap isGap =>
      have skipped := scanFrom_gap (.after before) isGap
      rw [List.append_nil, scanFrom_nil, Position.advance_after] at skipped
      exact skipped
  | @word before gap rest lexeme tokens isGap isToken _ leads _ inductionHypothesis =>
      rw [scanFrom_gap _ isGap, Position.advance_after,
        scanFrom_of_token _ (next?_eq_some_iff.mpr ⟨rfl, leads⟩) isToken, Position.advance_after,
        inductionHypothesis]
      rfl

theorem laid_of_scanFrom
    {before text : List Char}
    {tokens : List Token}
    (accepted : scanFrom (.after before) text = .ok tokens) :
    Laid before text tokens := by
  cases next : next? text with
  | none =>
      by_cases empty : text = []
      · subst empty
        rw [scanFrom_nil] at accepted
        obtain rfl := Except.ok.inj accepted
        have laid : Laid before [] [.ending (.after (before ++ []))] := .ending .nil
        rwa [List.append_nil] at laid
      · rw [scanFrom_of_none _ next empty] at accepted
        cases accepted
  | some pair =>
      obtain ⟨lexeme, rest⟩ := pair
      obtain ⟨whole, leads⟩ := next?_eq_some_iff.mp next
      have positive := List.length_pos_iff.mpr leads.text_ne_nil
      have shorter : rest.length < text.length := by
        rw [whole, List.length_append]
        omega
      cases isToken : lexeme.isToken with
      | true =>
          rw [scanFrom_of_token _ next isToken, Position.advance_after] at accepted
          obtain ⟨others, later, rfl⟩ := Outcome.map_eq_ok.mp accepted
          have laid : Laid before ([] ++ (lexeme.text ++ rest))
              (⟨String.ofList lexeme.text, .after (before ++ [])⟩ :: others) :=
            .word .nil isToken leads.text_ne_nil leads (by
              rw [List.append_nil]
              exact laid_of_scanFrom later)
          rw [whole]
          rwa [List.append_nil] at laid
      | false =>
          rw [scanFrom_of_noToken _ next isToken, Position.advance_after] at accepted
          rw [whole]
          exact (laid_of_scanFrom accepted).behind_gap (leads.isGap isToken)
termination_by text.length

theorem scanFrom_of_isRun
    {before run rest : List Char}
    (isRun : IsRun run rest)
    (nonempty : rest ≠ [])
    (nothing : next? rest = none) :
    scanFrom (.after before) (run ++ rest) =
      .error ⟨.unknownText (snippet rest), .after (before ++ run)⟩ := by
  induction isRun generalizing before with
  | nil => rw [List.nil_append, List.append_nil, scanFrom_of_none _ nothing nonempty]
  | @cons lexeme run rest leads _ inductionHypothesis =>
      have next := next?_eq_some_iff.mpr ⟨rfl, leads⟩
      have later := @inductionHypothesis (before ++ lexeme.text) nonempty nothing
      rw [List.append_assoc] at later ⊢
      cases isToken : lexeme.isToken with
      | true =>
          rw [scanFrom_of_token _ next isToken, Position.advance_after, later]
          rfl
      | false => rw [scanFrom_of_noToken _ next isToken, Position.advance_after, later]

theorem exists_isRun_of_scanFrom
    {before text : List Char}
    {error : SyntaxError}
    (refused : scanFrom (.after before) text = .error error) :
    ∃ run rest, text = run ++ rest ∧ IsRun run rest ∧ rest ≠ [] ∧ next? rest = none ∧
      error = ⟨.unknownText (snippet rest), .after (before ++ run)⟩ := by
  cases next : next? text with
  | none =>
      by_cases empty : text = []
      · subst empty
        rw [scanFrom_nil] at refused
        cases refused
      · rw [scanFrom_of_none _ next empty] at refused
        refine ⟨[], text, rfl, .nil, empty, next, ?_⟩
        rw [List.append_nil, Except.error.inj refused]
  | some pair =>
      obtain ⟨lexeme, behind⟩ := pair
      obtain ⟨whole, leads⟩ := next?_eq_some_iff.mp next
      have positive := List.length_pos_iff.mpr leads.text_ne_nil
      have shorter : behind.length < text.length := by
        rw [whole, List.length_append]
        omega
      have later : scanFrom (.after (before ++ lexeme.text)) behind = .error error := by
        cases isToken : lexeme.isToken with
        | true =>
            rw [scanFrom_of_token _ next isToken, Position.advance_after] at refused
            exact Outcome.map_eq_error.mp refused
        | false => rwa [scanFrom_of_noToken _ next isToken, Position.advance_after] at refused
      obtain ⟨run, rest, same, isRun, nonempty, nothing, rfl⟩ := exists_isRun_of_scanFrom later
      subst same
      refine ⟨lexeme.text ++ run, rest, ?_, .cons leads isRun, nonempty, nothing, ?_⟩
      · rw [whole, List.append_assoc]
      · rw [List.append_assoc]
termination_by text.length

theorem scan_eq_ok_iff {text : String} {tokens : List Token} :
    scan text = .ok tokens ↔ Laid [] text.toList tokens := by
  rw [scan_eq_scanFrom]
  exact ⟨laid_of_scanFrom, scanFrom_of_laid⟩

theorem scan_eq_error_iff {text : String} {error : SyntaxError} :
    scan text = .error error ↔
      ∃ run rest, text.toList = run ++ rest ∧ IsRun run rest ∧ rest ≠ [] ∧
        (∀ (kind : LexemeKind) (taken behind : List Char), rest = taken ++ behind →
          ¬ Fits kind taken behind) ∧
        error = ⟨.unknownText (snippet rest), .after run⟩ := by
  rw [scan_eq_scanFrom]
  constructor
  · intro refused
    obtain ⟨run, rest, same, isRun, nonempty, nothing, rfl⟩ := exists_isRun_of_scanFrom refused
    exact ⟨run, rest, same, isRun, nonempty, next?_eq_none_iff.mp nothing, rfl⟩
  · rintro ⟨run, rest, same, isRun, nonempty, noneFits, rfl⟩
    rw [same]
    exact scanFrom_of_isRun isRun nonempty (next?_eq_none_iff.mpr noneFits)

/-- Only the last token is empty, and it stands at the end of the text. -/
theorem Laid.exists_words
    {before text : List Char}
    {tokens : List Token}
    (laid : Laid before text tokens) :
    ∃ words, tokens = words ++ [.ending (.after (before ++ text))] ∧
      ∀ token ∈ words, token.text ≠ "" := by
  induction laid with
  | ending isGap => exact ⟨[], rfl, nofun⟩
  | @word before gap rest lexeme tokens isGap isToken nonempty leads later inductionHypothesis =>
      obtain ⟨words, rfl, full⟩ := inductionHypothesis
      refine ⟨⟨String.ofList lexeme.text, .after (before ++ gap)⟩ :: words, ?_, ?_⟩
      · simp only [List.append_assoc, List.cons_append]
      · intro token member
        rcases List.mem_cons.mp member with rfl | inside
        · exact fun empty => nonempty (String.ofList_eq_empty_iff.mp empty)
        · exact full token inside

/-- Nothing of a text is lost, and positions are exact. The tokens are those that make up the text
together with gaps, and a text is refused at the first character, behind lexemes that stand one
behind the other, at which there is no lexeme. -/
theorem scan_exact (text : String) :
    (∀ tokens, scan text = .ok tokens ↔ Laid [] text.toList tokens) ∧
      (∀ tokens, scan text = .ok tokens →
        ∃ words, tokens = words ++ [.ending (.after text.toList)] ∧
          ∀ token ∈ words, token.text ≠ "") ∧
      ∀ error, scan text = .error error ↔
        ∃ run rest, text.toList = run ++ rest ∧ IsRun run rest ∧ rest ≠ [] ∧
          (∀ (kind : LexemeKind) (taken behind : List Char), rest = taken ++ behind →
            ¬ Fits kind taken behind) ∧
          error = ⟨.unknownText (snippet rest), .after run⟩ := by
  refine ⟨fun tokens => scan_eq_ok_iff, fun tokens accepted => ?_, fun error => scan_eq_error_iff⟩
  exact (scan_eq_ok_iff.mp accepted).exists_words

end Token

end ProtoWire.Proto
