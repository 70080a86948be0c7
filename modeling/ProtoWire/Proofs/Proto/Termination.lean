import ProtoWire.Proofs.Proto.Places
import ProtoWire.Proofs.Proto.Progress

/-!
Contract: parsing ends. On tokens of which the last one has no text, every loop of the grammar
takes a token in each round, and messages are read inside of messages only behind a token that was
taken. So the bounds on rounds and on levels are never reached, and what is read is a file or an
error at one of the tokens.

Owns:
- progress of every parser of the grammar;
- messages without a bound on their levels;
- that all loops and the recursion of the grammar end.

Does not own: what the parsers find.
-/

namespace ProtoWire.Proto

namespace Parser

variable {tokens : List Token} {stream : TokenStream}

/-! ### Statements that are passed over -/

theorem proceeds_blockRound (depth : Nat) : Proceeds tokens 1 (blockRound depth) stream := by
  unfold blockRound
  refine (chooses_acceptWord rfl).thenPure ?_ (by decide)
  refine (chooses_acceptWord rfl).proceeds 0 (fun _ => ?_) ?_ (by decide)
  · split <;> exact proceeds_pure
  · refine Proceeds.ite_sees (fun _ => proceeds_unexpected) fun solid => ?_
    exact (proceeds_advance (ne_empty_of_isEmpty solid)).thenPure (by decide)

theorem proceeds_skipBlock : Proceeds tokens 2 skipBlock stream := by
  rw [skipBlock_eq]
  exact (proceeds_expectSymbol rfl).bind 1
    (fun _ _ _ => proceeds_loop (fun depth _ _ => proceeds_blockRound depth) 0) (by decide)

theorem proceeds_bodyRound (state : Unit) : Proceeds tokens 1 (bodyRound state) stream := by
  unfold bodyRound
  refine (chooses_acceptWord rfl).thenPure ?_ (by decide)
  refine Proceeds.ite_sees (fun _ => ?_) fun _ => ?_
  · exact proceeds_skipBlock.thenPure (by decide)
  · refine Proceeds.ite_sees (fun _ => proceeds_unexpected) fun solid => ?_
    have nonempty := ne_empty_of_isEmpty (Bool.or_eq_false_iff.mp solid).1
    exact (proceeds_advance nonempty).thenPure (by decide)

theorem proceeds_skipStatement : Proceeds tokens 1 skipStatement stream := by
  rw [skipStatement_eq]
  exact proceeds_loop (fun state _ _ => proceeds_bodyRound state) ()

/-! ### Options -/

theorem proceeds_skipConstant : Proceeds tokens 1 skipConstant stream := by
  unfold skipConstant
  refine Proceeds.ite_sees (fun _ => proceeds_skipBlock.weaken (by decide)) fun _ => ?_
  refine Proceeds.current fun member => ?_
  split
  · exact proceeds_failAt member nofun
  · rename_i solid
    rw [Bool.not_eq_true, Bool.or_eq_false_iff] at solid
    exact proceeds_advance (ne_empty_of_isEmpty solid.1)

theorem proceeds_nameRound (name : String) : Proceeds tokens 1 (nameRound name) stream := by
  unfold nameRound
  have last (part : String) (later : TokenStream) : Proceeds tokens 0 (do
      if ← sees 0 fun text => text.startsWith "." then pure (.again (name ++ part))
      else pure (.done (name ++ part)) : Parser (Round String String)) later :=
    Proceeds.ite_sees (fun _ => proceeds_pure) fun _ => proceeds_pure
  refine (chooses_acceptWord rfl).proceeds 2 (fun _ => ?_) ?_ (by decide)
  · refine Proceeds.expect 1 rfl (fun _ _ _ => ?_) (by decide)
    refine (proceeds_expectSymbol rfl).bind 0 (fun _ later _ => ?_) (by decide)
    rw [pure_bind]
    exact last _ later
  · refine Proceeds.expect 0 rfl (fun later _ _ => ?_) (by decide)
    rw [pure_bind]
    exact last _ later

theorem proceeds_optionName : Proceeds tokens 1 optionName stream := by
  rw [optionName_eq]
  exact proceeds_loop (fun name _ _ => proceeds_nameRound name) ""

theorem proceeds_flag : Proceeds tokens 1 flag stream := by
  unfold flag
  refine Proceeds.current fun member => ?_
  have taken (value : Bool) (solid : stream.current.text ≠ "") :
      Proceeds tokens 1 (advance >>= fun _ => pure value) stream :=
    (proceeds_advance solid).thenPure (by decide)
  split
  · rename_i text
    exact taken true (by rw [text]; decide)
  · rename_i text
    exact taken false (by rw [text]; decide)
  · rw [failAt_bind]
    exact proceeds_failAt member nofun

theorem proceeds_optionRound (packed : Option Bool) :
    Proceeds tokens 1 (optionRound packed) stream := by
  unfold optionRound fieldOption
  rw [bind_assoc]
  refine proceeds_optionName.bind 0 (fun name _ _ => ?_) (by decide)
  rw [bind_assoc]
  refine (proceeds_expectSymbol rfl).bind 0 (fun _ later _ => ?_) (by decide)
  have closes (known : Option Bool) (last : TokenStream) :
      Proceeds tokens 0 (optionEnd known) last := by
    unfold optionEnd
    refine (chooses_acceptWord rfl).thenPure ?_ (by decide)
    exact (proceeds_expectSymbol rfl).thenPure (by decide)
  split
  · rw [← bind_pure_comp, bind_assoc]
    exact proceeds_flag.bind 0 (fun _ last _ => closes _ last) (by decide)
  · rw [bind_assoc]
    exact proceeds_skipConstant.bind 0 (fun _ last _ => closes packed last) (by decide)

theorem proceeds_fieldOptions : Proceeds tokens 0 fieldOptions stream := by
  rw [fieldOptions_eq]
  refine (chooses_acceptWord rfl).proceeds 1 (fun _ => ?_) proceeds_pure (by decide)
  exact proceeds_loop (fun packed _ _ => proceeds_optionRound packed) none

/-! ### Fields -/

theorem proceeds_fieldNumber : Proceeds tokens 1 fieldNumber stream := by
  unfold fieldNumber
  refine Proceeds.expect 0 rfl (fun _ member _ => ?_) (by decide)
  split
  · exact proceeds_pure
  · exact proceeds_failAt member nofun

theorem proceeds_fieldLabel : Proceeds tokens 0 fieldLabel stream := by
  unfold fieldLabel
  refine (chooses_acceptWord rfl).thenPure ?_ (by decide)
  refine (chooses_acceptWord rfl).thenPure ?_ (by decide)
  exact (chooses_acceptWord rfl).thenPure proceeds_pure (by decide)

theorem proceeds_fieldType : Proceeds tokens 1 fieldType stream := by
  unfold fieldType
  refine (chooses_acceptWordBefore rfl).proceeds 5 (fun _ => ?_) ?_ (by decide)
  · refine (proceeds_expectSymbol rfl).bind 4 (fun _ _ _ => ?_) (by decide)
    refine Proceeds.expect 3 rfl (fun _ _ _ => ?_) (by decide)
    refine (proceeds_expectSymbol rfl).bind 2 (fun _ _ _ => ?_) (by decide)
    refine Proceeds.expect 1 rfl (fun _ _ _ => ?_) (by decide)
    exact (proceeds_expectSymbol rfl).thenPure (by decide)
  · exact Proceeds.expect 0 rfl (fun _ _ _ => proceeds_pure) (by decide)

theorem proceeds_refuseGroup : Proceeds tokens 0 refuseGroup stream := by
  unfold refuseGroup
  refine proceeds_sees.bind 0 (fun first _ _ => ?_) (by decide)
  refine proceeds_sees.bind 0 (fun fifth _ _ => ?_) (by decide)
  split
  · exact Proceeds.current fun member => proceeds_failAt member nofun
  · exact proceeds_pure

theorem proceeds_fieldHead (label : FieldLabel) : Proceeds tokens 4 (fieldHead label) stream := by
  unfold fieldHead
  refine proceeds_fieldType.bind 3 (fun _ _ _ => ?_) (by decide)
  refine Proceeds.expect 2 rfl (fun _ _ _ => ?_) (by decide)
  refine (proceeds_expectSymbol rfl).bind 1 (fun _ _ _ => ?_) (by decide)
  exact proceeds_fieldNumber.thenPure (by decide)

theorem proceeds_unlabelledField (label : FieldLabel) :
    Proceeds tokens 5 (unlabelledField label) stream := by
  rw [unlabelledField_eq]
  refine proceeds_refuseGroup.bind 5 (fun _ _ _ => ?_) (by decide)
  refine (proceeds_fieldHead label).bind 1 (fun _ _ _ => ?_) (by decide)
  refine proceeds_fieldOptions.bind 1 (fun _ _ _ => ?_) (by decide)
  exact (proceeds_expectSymbol rfl).thenPure (by decide)

theorem proceeds_field : Proceeds tokens 5 field stream := by
  unfold field
  exact proceeds_fieldLabel.bind 5 (fun label _ _ => proceeds_unlabelledField label) (by decide)

/-! ### Bodies without messages -/

/-- A statement that is passed over, and the state as it was. -/
theorem proceeds_passedOver {σ α : Type} (state : σ) :
    Proceeds tokens 1
      (skipStatement >>= fun _ => pure (.again state) : Parser (Round σ α)) stream :=
  proceeds_skipStatement.thenPure (by decide)

theorem proceeds_bodyHead {test : String → Bool} {what : String} (solid : test "" = false) :
    Proceeds tokens 2 (bodyHead test what) stream := by
  unfold bodyHead
  refine Proceeds.expect 1 solid (fun _ _ _ => ?_) (by decide)
  exact (proceeds_expectSymbol rfl).thenPure (by decide)

theorem proceeds_oneofStatement (fields : List FieldDecl) :
    Proceeds tokens 1 (oneofStatement fields) stream := by
  unfold oneofStatement
  refine (chooses_acceptWord rfl).thenPure ?_ (by decide)
  refine (chooses_acceptWord rfl).thenPure ?_ (by decide)
  refine (chooses_acceptWordBefore rfl).proceeds 1 (fun _ => proceeds_passedOver fields) ?_
    (by decide)
  refine Proceeds.ite_sees (fun _ => proceeds_unexpected) fun _ => ?_
  exact (proceeds_unlabelledField .none).thenPure (by decide)

theorem proceeds_oneof : Proceeds tokens 3 oneof stream := by
  rw [oneof_eq_bodyHead]
  exact (proceeds_bodyHead rfl).bind 1
    (fun _ _ _ => proceeds_loop (fun fields _ _ => proceeds_oneofStatement fields) []) (by decide)

/-- A range, and whether others follow. -/
def rangeRound (ranges : List ExtensionRange) :
    Parser (Round (List ExtensionRange) (List ExtensionRange)) := do
  let range ← extensionRange
  if ← acceptWord "," then pure (.again (ranges ++ [range]))
  else
    let _ ← fieldOptions
    expectSymbol ";"
    pure (.done (ranges ++ [range]))

theorem extensionRanges_eq : extensionRanges = loop rangeRound [] :=
  rfl

theorem proceeds_extensionRange : Proceeds tokens 1 extensionRange stream := by
  unfold extensionRange
  refine proceeds_fieldNumber.bind 0 (fun _ _ _ => ?_) (by decide)
  refine (chooses_acceptWord rfl).proceeds 0 (fun _ => ?_) proceeds_pure (by decide)
  refine (chooses_acceptWord rfl).thenPure ?_ (by decide)
  exact proceeds_fieldNumber.thenPure (by decide)

theorem proceeds_rangeRound (ranges : List ExtensionRange) :
    Proceeds tokens 1 (rangeRound ranges) stream := by
  unfold rangeRound
  refine proceeds_extensionRange.bind 0 (fun _ _ _ => ?_) (by decide)
  refine (chooses_acceptWord rfl).thenPure ?_ (by decide)
  refine proceeds_fieldOptions.bind 1 (fun _ _ _ => ?_) (by decide)
  exact (proceeds_expectSymbol rfl).thenPure (by decide)

theorem proceeds_extensionRanges : Proceeds tokens 1 extensionRanges stream := by
  rw [extensionRanges_eq]
  exact proceeds_loop (fun ranges _ _ => proceeds_rangeRound ranges) []

theorem proceeds_enumValue : Proceeds tokens 4 enumValue stream := by
  unfold enumValue
  refine Proceeds.expect 3 rfl (fun _ _ _ => ?_) (by decide)
  refine (proceeds_expectSymbol rfl).bind 2 (fun _ _ _ => ?_) (by decide)
  refine Proceeds.expect 1 rfl (fun _ member _ => ?_) (by decide)
  dsimp only
  split
  · rw [pure_bind]
    refine proceeds_fieldOptions.bind 1 (fun _ _ _ => ?_) (by decide)
    exact (proceeds_expectSymbol rfl).thenPure (by decide)
  · rw [failAt_bind]
    exact proceeds_failAt member nofun

theorem proceeds_enumStatement (values : List EnumValueDecl) :
    Proceeds tokens 1 (enumStatement values) stream := by
  unfold enumStatement
  refine (chooses_acceptWord rfl).thenPure ?_ (by decide)
  refine (chooses_acceptWord rfl).thenPure ?_ (by decide)
  refine (chooses_acceptWordBefore rfl).proceeds 1 (fun _ => proceeds_passedOver values) ?_
    (by decide)
  refine (chooses_acceptWordBefore rfl).proceeds 1 (fun _ => proceeds_passedOver values) ?_
    (by decide)
  exact proceeds_enumValue.thenPure (by decide)

theorem proceeds_enum : Proceeds tokens 3 enum stream := by
  rw [enum_eq_bodyHead]
  refine (proceeds_bodyHead rfl).bind 1 (fun _ _ _ => ?_) (by decide)
  exact (proceeds_loop (fun values _ _ => proceeds_enumStatement values) []).thenPure (by decide)

theorem proceeds_extendStatement (fields : List FieldDecl) :
    Proceeds tokens 1 (extendStatement fields) stream := by
  unfold extendStatement
  refine (chooses_acceptWord rfl).thenPure ?_ (by decide)
  refine (chooses_acceptWord rfl).thenPure ?_ (by decide)
  refine Proceeds.ite_sees (fun _ => proceeds_unexpected) fun _ => ?_
  exact proceeds_field.thenPure (by decide)

theorem proceeds_extendBlock : Proceeds tokens 3 extendBlock stream := by
  rw [extendBlock_eq_bodyHead]
  refine (proceeds_bodyHead rfl).bind 1 (fun _ _ _ => ?_) (by decide)
  exact (proceeds_loop (fun fields _ _ => proceeds_extendStatement fields) []).thenPure (by decide)

/-! ### Messages -/

/-- A statement of a message proceeds if messages do that stand behind one of its tokens. -/
theorem proceeds_messageStatement {nested : Parser MessageDecl}
    (inner : ∀ later : TokenStream, later.IsBehind stream 1 → Proceeds tokens 0 nested later)
    (known : MessageDecl) :
    Proceeds tokens 1 (messageStatement nested known) stream := by
  unfold messageStatement
  refine (chooses_acceptWord rfl).thenPure ?_ (by decide)
  refine (chooses_acceptWord rfl).thenPure ?_ (by decide)
  refine Proceeds.ite_sees (fun _ => proceeds_unexpected) fun _ => ?_
  refine (chooses_acceptWordBefore rfl).proceeds 0 (fun behind => ?_) ?_ (by decide)
  · exact (inner _ behind).thenPure (by decide)
  refine (chooses_acceptWordBefore rfl).proceeds 0 (fun _ => ?_) ?_ (by decide)
  · exact proceeds_enum.thenPure (by decide)
  refine (chooses_acceptWordBefore rfl).proceeds 0 (fun _ => ?_) ?_ (by decide)
  · exact proceeds_extendBlock.thenPure (by decide)
  refine chooses_acceptOneof.proceeds 0 (fun _ => ?_) ?_ (by decide)
  · exact proceeds_oneof.thenPure (by decide)
  refine (chooses_acceptWordBefore rfl).proceeds 0 (fun _ => ?_) ?_ (by decide)
  · exact proceeds_extensionRanges.thenPure (by decide)
  refine (chooses_acceptWordBefore rfl).proceeds 1 (fun _ => proceeds_passedOver known) ?_
    (by decide)
  refine (chooses_acceptWordBefore rfl).proceeds 1 (fun _ => proceeds_passedOver known) ?_
    (by decide)
  exact proceeds_field.thenPure (by decide)

/-- A statement of a message reads messages only behind one of its own tokens. -/
theorem messageStatement_agrees {nested other : Parser MessageDecl}
    (left : stream.IsLeftOf tokens)
    (same : ∀ later : TokenStream, later.IsBehind stream 1 → nested later = other later)
    (known : MessageDecl) :
    messageStatement nested known stream = messageStatement other known stream := by
  unfold messageStatement
  refine (chooses_acceptWord rfl).agrees left (fun _ => rfl) ?_
  refine (chooses_acceptWord rfl).agrees left (fun _ => rfl) (sees_agrees ?_)
  exact (chooses_acceptWordBefore rfl).agrees left (fun behind => bind_agrees (same _ behind)) rfl

/-- A message proceeds if its levels are more than the tokens behind the current one. -/
theorem proceeds_messageWithin {levels : Nat} (enough : stream.following.length < levels) :
    Proceeds tokens 3 (messageWithin levels) stream := by
  induction levels generalizing stream with
  | zero => omega
  | succ levels inductionHypothesis =>
      rw [messageWithin_succ]
      refine (proceeds_bodyHead rfl).bind 1 (fun name next behind => ?_) (by decide)
      refine proceeds_loop (fun known later laterBehind => ?_) _
      refine proceeds_messageStatement (fun inner innerBehind => ?_) known
      have shorter := ((innerBehind.trans laterBehind).trans behind).length_le
      exact (inductionHypothesis (by omega)).weaken (Nat.zero_le 3)

theorem proceeds_message : Proceeds tokens 3 message stream := by
  have enough : stream.following.length < stream.rounds := by
    rw [TokenStream.rounds]
    omega
  exact proceeds_of_later TokenStream.isBehind_self (message.eq_1 stream)
    (proceeds_messageWithin enough) (by decide)

/-- The bound on the levels of a message does not matter if it is large enough. -/
theorem messageWithin_agrees {levels more : Nat}
    (left : stream.IsLeftOf tokens)
    (enough : stream.following.length < levels)
    (enoughMore : stream.following.length < more) :
    messageWithin levels stream = messageWithin more stream := by
  induction levels generalizing more stream with
  | zero => omega
  | succ levels inductionHypothesis =>
      obtain ⟨more, rfl⟩ := Nat.exists_eq_add_one.mpr (Nat.zero_lt_of_lt enoughMore)
      rw [messageWithin_succ, messageWithin_succ]
      refine (proceeds_bodyHead rfl).bind_agrees left fun name next behind => ?_
      have nextLeft := behind.isLeftOf left
      refine loopWithin_agrees (fun later laterBehind known => .inr ?_) nextLeft
        (fun known later laterBehind => ?_) _ _
      · refine proceeds_messageStatement (fun inner innerBehind => ?_) known
        have shorter := ((innerBehind.trans laterBehind).trans behind).length_le
        exact (proceeds_messageWithin (by omega)).weaken (Nat.zero_le 3)
      · refine messageStatement_agrees (laterBehind.isLeftOf nextLeft)
          (fun inner innerBehind => ?_) known
        have innerLeft := (innerBehind.trans laterBehind).isLeftOf nextLeft
        have shorter := ((innerBehind.trans laterBehind).trans behind).length_le
        exact inductionHypothesis innerLeft (by omega) (by omega)

/-- A statement in a message proceeds. -/
theorem proceeds_messageRound (known : MessageDecl) :
    Proceeds tokens 1 (messageStatement message known) stream :=
  proceeds_messageStatement (fun _ _ => proceeds_message.weaken (Nat.zero_le 3)) known

/-- A message without a bound on its levels: the messages inside of it are read in the same way. -/
theorem message_eq (left : stream.IsLeftOf tokens) :
    message stream = (do
      let name ← bodyHead TokenClass.isIdentifier "identifier"
      loop (messageStatement message) ⟨name.text, name.position, [], [], [], [], []⟩) stream := by
  obtain ⟨levels, rounds⟩ : ∃ levels, stream.rounds = levels + 1 :=
    ⟨2 * stream.following.length + 3, rfl⟩
  have enough : stream.following.length < levels := by
    rw [TokenStream.rounds] at rounds
    omega
  rw [message, rounds, messageWithin_succ]
  refine (proceeds_bodyHead rfl).bind_agrees left fun name next behind => ?_
  have nextLeft := behind.isLeftOf left
  refine (loopWithin_agrees (fun later _ known => .inr (proceeds_messageRound known)) nextLeft
    (fun known later laterBehind => ?_) _ _).symm
  refine messageStatement_agrees (laterBehind.isLeftOf nextLeft) (fun inner innerBehind => ?_) known
  have shorter := ((innerBehind.trans laterBehind).trans behind).length_le
  have innerLeft := (innerBehind.trans laterBehind).isLeftOf nextLeft
  refine messageWithin_agrees innerLeft ?_ (by omega)
  rw [TokenStream.rounds]
  omega

/-! ### Files -/

theorem proceeds_editionStatement : Proceeds tokens 3 editionStatement stream := by
  unfold editionStatement
  refine (proceeds_expectSymbol rfl).bind 2 (fun _ _ _ => ?_) (by decide)
  refine Proceeds.expect 1 rfl (fun _ member _ => ?_) (by decide)
  dsimp only
  split
  · rw [pure_bind]
    exact (proceeds_expectSymbol rfl).thenPure (by decide)
  · rw [pure_bind]
    exact (proceeds_expectSymbol rfl).thenPure (by decide)
  · rw [failAt_bind]
    exact proceeds_failAt member nofun

theorem proceeds_packageStatement (known : Option String) :
    Proceeds tokens 2 (packageStatement known) stream := by
  unfold packageStatement
  refine Proceeds.expect 1 rfl (fun _ member _ => ?_) (by decide)
  dsimp only
  split
  · rw [failAt_bind]
    exact proceeds_failAt member nofun
  · exact (proceeds_expectSymbol rfl).thenPure (by decide)

theorem proceeds_importStatement : Proceeds tokens 2 importStatement stream := by
  unfold importStatement
  refine proceeds_accept.bind 2 (fun _ _ _ => ?_) (by decide)
  refine Proceeds.expect 1 rfl (fun _ member _ => ?_) (by decide)
  split
  · exact (proceeds_expectSymbol rfl).thenPure (by decide)
  · exact proceeds_failAt member nofun

/-- A statement of a file takes a token, or it is the end of the file. -/
theorem turns_fileStatement : Turns tokens fileStatement stream := by
  intro file
  by_cases closing : stream.current.text.isEmpty = true
  · left
    refine ⟨file, stream.advance, ?_, TokenStream.isBehind_advance⟩
    change (accept String.isEmpty stream >>= fun pair => _) = _
    rw [accept, if_pos closing]
    rfl
  · right
    have refuses : Chooses (accept String.isEmpty) stream := .inr (if_neg closing)
    unfold fileStatement
    refine refuses.thenPure ?_ (by decide)
    refine (chooses_acceptWord rfl).thenPure ?_ (by decide)
    refine (chooses_acceptWord rfl).proceeds 0 (fun _ => ?_) ?_ (by decide)
    · exact proceeds_editionStatement.thenPure (by decide)
    refine (chooses_acceptWord rfl).proceeds 0 (fun _ => ?_) ?_ (by decide)
    · exact (proceeds_packageStatement file.package).thenPure (by decide)
    refine (chooses_acceptWord rfl).proceeds 0 (fun _ => ?_) ?_ (by decide)
    · exact proceeds_importStatement.thenPure (by decide)
    refine (chooses_acceptWord rfl).proceeds 1 (fun _ => proceeds_passedOver file) ?_ (by decide)
    refine (chooses_acceptWord rfl).proceeds 0 (fun _ => ?_) ?_ (by decide)
    · exact proceeds_message.thenPure (by decide)
    refine (chooses_acceptWord rfl).proceeds 0 (fun _ => ?_) ?_ (by decide)
    · exact proceeds_enum.thenPure (by decide)
    refine (chooses_acceptWord rfl).proceeds 0 (fun _ => ?_) ?_ (by decide)
    · exact proceeds_extendBlock.thenPure (by decide)
    refine (chooses_acceptWord rfl).proceeds 0 (fun _ => ?_) proceeds_unexpected (by decide)
    refine Proceeds.expect 2 rfl (fun _ _ _ => ?_) (by decide)
    exact proceeds_skipBlock.thenPure (by decide)

/-! ### All loops -/

/-- Nothing goes round for ever on what is left of some tokens. Each loop of the grammar is a run of
its rounds, of which no one but the last leaves the tokens as they are. Messages that stand inside
of a message are read without a bound on their levels, and only behind a token that was taken. -/
structure EndsOn (tokens : List Token) (stream : TokenStream) : Prop where
  /-- The loop of `FileDecl.ofTokens`. -/
  file (known : FileDecl) :
    Runs tokens fileStatement known stream (loop fileStatement known stream)
  /-- The loop of `message`, as `body` has it. -/
  message (known : MessageDecl) :
    Runs tokens (messageStatement message) known stream
      (loop (messageStatement message) known stream)
  /-- The loop of `oneof`, by `oneof_eq`. -/
  oneof (known : List FieldDecl) :
    Runs tokens oneofStatement known stream (loop oneofStatement known stream)
  /-- The loop of `enum`, by `enum_eq`. -/
  enum (known : List EnumValueDecl) :
    Runs tokens enumStatement known stream (loop enumStatement known stream)
  /-- The loop of `extendBlock`, by `extendBlock_eq`. -/
  extend (known : List FieldDecl) :
    Runs tokens extendStatement known stream (loop extendStatement known stream)
  /-- The loop of `extensionRanges`, by `extensionRanges_eq`. -/
  ranges (known : List ExtensionRange) :
    Runs tokens rangeRound known stream (loop rangeRound known stream)
  /-- The loop of `fieldOptions`, by `fieldOptions_eq`. -/
  options (known : Option Bool) :
    Runs tokens optionRound known stream (loop optionRound known stream)
  /-- The loop of `optionName`, by `optionName_eq`. -/
  optionName (known : String) :
    Runs tokens nameRound known stream (loop nameRound known stream)
  /-- The loop of `skipStatement`, by `skipStatement_eq`. -/
  statement (known : Unit) :
    Runs tokens bodyRound known stream (loop bodyRound known stream)
  /-- The loop of `skipBlock`, by `skipBlock_eq`. -/
  block (depth : Nat) :
    Runs tokens blockRound depth stream (loop blockRound depth stream)
  /-- The bound on the levels of messages is never reached. -/
  body :
    Parser.message stream = (do
      let name ← bodyHead TokenClass.isIdentifier "identifier"
      loop (messageStatement Parser.message)
        ⟨name.text, name.position, [], [], [], [], []⟩) stream
  /-- A statement of a message depends on messages inside of it only behind its first token. -/
  deeper
      (known : MessageDecl)
      (nested : Parser MessageDecl)
      (same : ∀ later : TokenStream, later.IsBehind stream 1 →
        nested later = Parser.message later) :
    messageStatement nested known stream = messageStatement Parser.message known stream

theorem endsOn_of_isLeftOf (left : stream.IsLeftOf tokens) : EndsOn tokens stream := by
  have runs {σ α : Type} {round : σ → Parser (Round σ α)}
      (rounds : ∀ known (later : TokenStream), Proceeds tokens 1 (round known) later) (known : σ) :
      Runs tokens round known stream (loop round known stream) :=
    runs_loop (fun later _ known => .inr (rounds known later)) left known
  exact {
    file := runs_loop (fun _ _ => turns_fileStatement) left
    message := runs fun known _ => proceeds_messageRound known
    oneof := runs fun known _ => proceeds_oneofStatement known
    enum := runs fun known _ => proceeds_enumStatement known
    extend := runs fun known _ => proceeds_extendStatement known
    ranges := runs fun known _ => proceeds_rangeRound known
    options := runs fun known _ => proceeds_optionRound known
    optionName := runs fun known _ => proceeds_nameRound known
    statement := runs fun known _ => proceeds_bodyRound known
    block := runs fun depth _ => proceeds_blockRound depth
    body := message_eq left
    deeper := fun known _ same => messageStatement_agrees left same known }

end Parser

/-- Parsing ends. Of tokens of which the last one has no text, a file or an error at one of the
tokens is read. Wherever a parser stands, it looks ahead within the tokens, and no loop and no
recursion goes round without taking one of them. -/
theorem FileDecl.ofTokens_ends
    {tokens : List Token}
    (ended : tokens.getLast?.map Token.text = some "") :
    ((∃ file, FileDecl.ofTokens tokens = .ok file) ∨
        ∃ error, FileDecl.ofTokens tokens = .error error ∧ error.IsAt tokens) ∧
      ∀ stream : TokenStream, stream.tokens <:+ tokens →
        (∀ distance, stream.ahead distance ∈ tokens) ∧ Parser.EndsOn tokens stream := by
  constructor
  · cases tokens with
    | nil => cases ended
    | cons token others =>
        have left : (⟨token, others⟩ : TokenStream).IsLeftOf (token :: others) :=
          ⟨List.suffix_rfl, ended⟩
        have runs := (Parser.endsOn_of_isLeftOf left).file .empty
        rw [FileDecl.ofTokens]
        cases ran : Parser.loop Parser.fileStatement .empty ⟨token, others⟩ with
        | ok pair => exact .inl ⟨pair.1, rfl⟩
        | error error =>
            rw [ran] at runs
            exact .inr ⟨error, rfl, runs.isAt⟩
  · intro stream suffix
    refine ⟨fun distance => suffix.subset (stream.ahead_mem distance), ?_⟩
    exact Parser.endsOn_of_isLeftOf ⟨suffix, ended⟩

/-- An option that goes on behind a token without text is an error at that token, although braces
and other tokens follow. -/
theorem FileDecl.ofTokens_ends_early :
    let tokens :=
      Token.unplaced ["message", "M", "\x7b", "option", "a", "=", "\x7b", "", "\x7d", ";", ""]
    tokens.getLast?.map Token.text = some "" ∧
      FileDecl.ofTokens tokens = .error ⟨.unexpectedEnd, .first⟩ ∧
      SyntaxError.IsAt ⟨.unexpectedEnd, .first⟩ tokens ∧
      ∀ stream : TokenStream, stream.tokens <:+ tokens →
        (∀ distance, stream.ahead distance ∈ tokens) ∧ Parser.EndsOn tokens stream := by
  intro tokens
  have ended : tokens.getLast?.map Token.text = some "" := by decide
  obtain ⟨outcome, ends⟩ := FileDecl.ofTokens_ends ended
  have refused : FileDecl.ofTokens tokens = .error ⟨.unexpectedEnd, .first⟩ := by
    rfl
  rcases outcome with ⟨file, accepted⟩ | ⟨error, failed, isAt⟩
  · rw [refused] at accepted
    cases accepted
  · obtain rfl := Except.error.inj (refused.symm.trans failed)
    exact ⟨ended, refused, isAt, ends⟩

end ProtoWire.Proto
