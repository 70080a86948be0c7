import ProtoWire.Proofs.Outcome
import ProtoWire.Proofs.Proto.Locality
import ProtoWire.Proofs.Proto.Rendering

/-!
Contract: the parsers of the grammar are local. Each of them depends on the words of what it reads
and on no word behind it, except where nothing closes what it reads.

Owns:
- how far each parser looks and how many words it takes at least;
- tokens with the same texts, which stand for the same file up to positions.

Does not own: what a parser does on given words.
-/

namespace ProtoWire.Proto

namespace Parser

variable {words : List String} {α : Type} {same : α → α → Prop} {look least : Nat}

theorem repeats_failAt {token other : Token} {cause otherCause : SyntaxCause} :
    Repeats same look least (failAt token cause) (failAt other otherCause) words :=
  repeats_error fun _ => ⟨_, rfl⟩

theorem repeats_unexpected : Repeats same look least unexpected unexpected words :=
  repeats_error fun _ => ⟨_, rfl⟩

/-! ### Statements that are passed over -/

theorem repeats_skipBlock : Repeats (fun _ _ => True) 0 2 skipBlock skipBlock words := by
  unfold skipBlock
  refine (repeats_expectSymbol rfl).bind 1 (fun _ _ rest _ _ => ?_) (by decide)
  refine repeats_loop (· = ·) ?_ rfl
  rintro depth _ inner - rfl
  refine Repeats.ite_acceptWord 0 rfl (fun _ _ => repeats_pure (.again rfl)) (fun _ => ?_) (by decide)
  refine Repeats.ite_acceptWord 0 rfl (fun _ _ => ?_) (fun _ => ?_) (by decide)
  · split
    · exact repeats_pure (.done trivial)
    · exact repeats_pure (.again rfl)
  · refine Repeats.ite_sees (fun _ => repeats_unexpected) (fun solid => ?_) (by decide)
    cases inner with
    | nil => cases solid
    | cons word more =>
        exact repeats_advance.bind 0 (fun _ _ _ _ _ => repeats_pure (.again rfl)) (by decide)

theorem repeats_skipStatement :
    Repeats (fun _ _ => True) 0 1 skipStatement skipStatement words := by
  unfold skipStatement
  refine repeats_loop (fun _ _ => True) (fun _ _ inner _ _ => ?_) trivial
  refine Repeats.ite_acceptWord 0 rfl (fun _ _ => repeats_pure (.done trivial)) (fun _ => ?_)
    (by decide)
  refine Repeats.ite_sees (fun _ => ?_) (fun _ => ?_) (by decide)
  · exact repeats_skipBlock.bind 0 (fun _ _ _ _ _ => repeats_pure (.again trivial)) (by decide)
  · refine Repeats.ite_sees (fun _ => repeats_unexpected) (fun solid => ?_) (by decide)
    cases inner with
    | nil => cases solid
    | cons word more =>
        exact repeats_advance.bind 0 (fun _ _ _ _ _ => repeats_pure (.again trivial)) (by decide)

/-! ### Options -/

theorem repeats_skipConstant : Repeats (fun _ _ => True) 0 1 skipConstant skipConstant words := by
  unfold skipConstant
  refine Repeats.ite_sees (fun _ => repeats_skipBlock.weaken (by decide)) (fun _ => ?_) (by decide)
  refine Repeats.current (fun token other text otherText => ?_) (by decide)
  rw [text, otherText]
  cases words with
  | nil => exact repeats_failAt
  | cons word more =>
      split
      · exact repeats_failAt
      · exact repeats_advance.imp fun _ _ _ => trivial

theorem repeats_optionName : Repeats (· = ·) 1 1 optionName optionName words := by
  unfold optionName
  refine repeats_loop (· = ·) ?_ rfl
  rintro name _ inner - rfl
  refine Repeats.ite_acceptWord 2 rfl (fun more _ => ?_) (fun _ => ?_) (by decide)
  · refine (repeats_expect rfl).bind 1 (fun token other rest _ alike => ?_) (by decide)
    obtain alike : token.text = other.text := alike
    refine (repeats_expectSymbol rfl).bind 0 (fun _ _ _ _ _ => ?_) (by decide)
    simp only [alike, pure_bind]
    exact Repeats.ite_sees (fun _ => repeats_pure (.again rfl)) (fun _ => repeats_pure (.done rfl))
      (by decide)
  · refine (repeats_expect rfl).bind 0 (fun token other rest _ alike => ?_) (by decide)
    obtain alike : token.text = other.text := alike
    simp only [alike, pure_bind]
    exact Repeats.ite_sees (fun _ => repeats_pure (.again rfl)) (fun _ => repeats_pure (.done rfl))
      (by decide)

theorem repeats_flag : Repeats (· = ·) 0 1 flag flag words := by
  unfold flag
  refine Repeats.current (fun token other text otherText => ?_) (by decide)
  rw [text, otherText]
  cases words with
  | nil => exact repeats_failAt
  | cons word more =>
      dsimp only
      split
      · exact repeats_advance.bind 0 (fun _ _ _ _ _ => repeats_pure rfl) (by decide)
      · exact repeats_advance.bind 0 (fun _ _ _ _ _ => repeats_pure rfl) (by decide)
      · exact repeats_error fun _ => ⟨_, rfl⟩

/-- One option behind another one, and what was known before it. -/
def fieldOption (packed : Option Bool) : Parser (Option Bool) := do
  let name ← optionName
  expectSymbol "="
  if name = "packed" then some <$> flag
  else do
    skipConstant
    pure packed

/-- What stands behind an option in brackets: a comma if others follow, or the end. -/
def optionEnd (packed : Option Bool) : Parser (Round (Option Bool) (Option Bool)) := do
  if ← acceptWord "," then pure (.again packed)
  else
    expectSymbol "]"
    pure (.done packed)

/-- An option in brackets, and whether others follow. -/
def optionRound (packed : Option Bool) : Parser (Round (Option Bool) (Option Bool)) := do
  let packed ← fieldOption packed
  optionEnd packed

theorem fieldOptions_eq :
    fieldOptions = (do
      if ← acceptWord "[" then loop optionRound none
      else pure none) := by
  refine congrArg (acceptWord "[" >>= ·) (funext fun opens => ?_)
  refine congrArg (fun round => if opens then loop round none else pure none)
    (funext fun packed => ?_)
  rw [optionRound, fieldOption, bind_assoc]
  refine congrArg (optionName >>= ·) (funext fun name => ?_)
  rw [bind_assoc]
  refine congrArg (expectSymbol "=" >>= ·) (funext fun _ => ?_)
  split
  · rfl
  · rw [bind_assoc]
    rfl

theorem repeats_fieldOption {packed : Option Bool} :
    Repeats (· = ·) 0 3 (fieldOption packed) (fieldOption packed) words := by
  unfold fieldOption
  refine repeats_optionName.bind 2 ?_ (by decide)
  rintro name _ rest - rfl
  refine (repeats_expectSymbol rfl).bind 1 (fun _ _ _ _ _ => ?_) (by decide)
  split
  · exact repeats_flag.map fun _ _ => congrArg some
  · exact repeats_skipConstant.bind 0 (fun _ _ _ _ _ => repeats_pure rfl) (by decide)

theorem repeats_optionEnd {packed : Option Bool} :
    Repeats (Round.Alike (· = ·) (· = ·)) 0 1 (optionEnd packed) (optionEnd packed) words := by
  unfold optionEnd
  refine Repeats.ite_acceptWord 0 rfl (fun _ _ => repeats_pure (.again rfl)) (fun _ => ?_) (by decide)
  exact (repeats_expectSymbol rfl).bind 0 (fun _ _ _ _ _ => repeats_pure (.done rfl)) (by decide)

theorem repeats_optionRound {packed : Option Bool} :
    Repeats (Round.Alike (· = ·) (· = ·)) 0 4 (optionRound packed) (optionRound packed) words := by
  unfold optionRound
  refine repeats_fieldOption.bind 1 ?_ (by decide)
  rintro known _ rest - rfl
  exact repeats_optionEnd

theorem repeats_fieldOptions : Repeats (· = ·) 1 0 fieldOptions fieldOptions words := by
  rw [fieldOptions_eq]
  refine Repeats.ite_acceptWord 4 rfl (fun _ _ => ?_) (fun _ => repeats_pure rfl) (by decide)
  refine repeats_loop (· = ·) ?_ rfl
  rintro packed _ rest - rfl
  exact repeats_optionRound.weaken (by decide)

/-! ### Fields -/

theorem repeats_fieldNumber : Repeats (· = ·) 0 1 fieldNumber fieldNumber words := by
  unfold fieldNumber
  refine (repeats_expect rfl).bind 0 (fun token other rest _ alike => ?_) (by decide)
  obtain alike : token.text = other.text := alike
  rw [alike]
  cases TokenClass.unsignedValue? other.text with
  | none => exact repeats_failAt
  | some number => exact repeats_pure rfl

theorem repeats_fieldLabel : Repeats (· = ·) 1 0 fieldLabel fieldLabel words := by
  unfold fieldLabel
  refine Repeats.ite_acceptWord 0 rfl (fun _ _ => repeats_pure rfl) (fun _ => ?_) (by decide)
  refine Repeats.ite_acceptWord 0 rfl (fun _ _ => repeats_pure rfl) (fun _ => ?_) (by decide)
  exact Repeats.ite_acceptWord 0 rfl (fun _ _ => repeats_pure rfl) (fun _ => repeats_pure rfl)
    (by decide)

theorem repeats_fieldType : Repeats (· = ·) 1 1 fieldType fieldType words := by
  unfold fieldType
  refine Repeats.ite_keyword 5 (by decide) (fun _ _ _ => ?_) (fun _ => ?_) (by decide)
  · refine (repeats_expectSymbol rfl).bind 4 (fun _ _ _ _ _ => ?_) (by decide)
    refine (repeats_expect rfl).bind 3 (fun key otherKey _ _ keys => ?_) (by decide)
    refine (repeats_expectSymbol rfl).bind 2 (fun _ _ _ _ _ => ?_) (by decide)
    refine (repeats_expect rfl).bind 1 (fun value otherValue _ _ values => ?_) (by decide)
    refine (repeats_expectSymbol rfl).bind 0 (fun _ _ _ _ _ => repeats_pure ?_) (by decide)
    obtain keys : key.text = otherKey.text := keys
    obtain values : value.text = otherValue.text := values
    rw [keys, values]
  · refine (repeats_expect rfl).bind 0 (fun type other _ _ types => repeats_pure ?_) (by decide)
    obtain types : type.text = other.text := types
    rw [types]

/-- A group opens a block where the number of a field ends. -/
def refuseGroup : Parser Unit := do
  if (← sees 0 (· == "group")) && (← sees 4 (· == "\x7b")) then
    failAt (← current) .group

/-- A field up to its options, which are still to be known. -/
def fieldHead (label : FieldLabel) : Parser (Option Bool → FieldDecl) := do
  let (type, map) ← fieldType
  let name ← expectIdentifier
  expectSymbol "="
  let tag ← fieldNumber
  pure fun packed => ⟨name.text, name.position, type, tag, label, map, packed⟩

theorem unlabelledField_eq (label : FieldLabel) :
    unlabelledField label = (do
      refuseGroup
      let declare ← fieldHead label
      let packed ← fieldOptions
      expectSymbol ";"
      pure (declare packed)) := by
  unfold unlabelledField refuseGroup fieldHead
  simp only [bind_assoc, pure_bind]
  refine congrArg (sees 0 (· == "group") >>= ·) (funext fun first => ?_)
  refine congrArg (sees 4 (· == "\x7b") >>= ·) (funext fun fifth => ?_)
  split
  · rw [bind_assoc]
  · rw [pure_bind]

theorem repeats_refuseGroup :
    Repeats (fun _ _ => True) 5 0 refuseGroup refuseGroup words := by
  unfold refuseGroup
  refine repeats_sees.bind 0 ?_ (by decide)
  rintro first _ _ - rfl
  refine repeats_sees.bind 0 ?_ (by decide)
  rintro fifth _ _ - rfl
  split
  · exact repeats_error fun _ => ⟨_, rfl⟩
  · exact repeats_pure trivial

theorem repeats_fieldHead {label : FieldLabel} :
    Repeats (fun declare other => ∀ packed, (declare packed).unplaced = (other packed).unplaced) 0 4
      (fieldHead label) (fieldHead label) words := by
  unfold fieldHead
  refine repeats_fieldType.bind 3 ?_ (by decide)
  rintro ⟨type, map⟩ _ rest - rfl
  refine (repeats_expect rfl).bind 2 (fun name other _ _ names => ?_) (by decide)
  refine (repeats_expectSymbol rfl).bind 1 (fun _ _ _ _ _ => ?_) (by decide)
  refine repeats_fieldNumber.bind 0 ?_ (by decide)
  rintro tag _ _ - rfl
  refine repeats_pure fun packed => ?_
  obtain names : name.text = other.text := names
  rw [FieldDecl.unplaced, FieldDecl.unplaced, names]

theorem repeats_unlabelledField {label : FieldLabel} :
    Repeats (SameUpTo FieldDecl.unplaced) 0 5 (unlabelledField label) (unlabelledField label)
      words := by
  rw [unlabelledField_eq]
  refine repeats_refuseGroup.bind 5 (fun _ _ _ _ _ => ?_) (by decide)
  refine repeats_fieldHead.bind 1 (fun declare other _ _ alike => ?_) (by decide)
  refine repeats_fieldOptions.bind 1 ?_ (by decide)
  rintro packed _ _ - rfl
  exact (repeats_expectSymbol rfl).bind 0 (fun _ _ _ _ _ => repeats_pure (alike packed)) (by decide)

theorem repeats_field : Repeats (SameUpTo FieldDecl.unplaced) 0 5 field field words := by
  unfold field
  refine repeats_fieldLabel.bind 5 ?_ (by decide)
  rintro label _ _ - rfl
  exact repeats_unlabelledField

/-! ### Oneofs and extension ranges -/

/-- One statement of a group of which at most one field is set. -/
def oneofStatement (fields : List FieldDecl) : Parser (Round (List FieldDecl) (List FieldDecl)) := do
  if ← acceptWord "\x7d" then pure (.done fields)
  else if ← acceptWord ";" then pure (.again fields)
  else if ← acceptWordBefore "option" (· != "=") then
    skipStatement
    pure (.again fields)
  else if ← atEnd then unexpected
  else
    let member ← unlabelledField .none
    pure (.again (fields ++ [{ member with label := .optional }]))

theorem oneof_eq :
    oneof = (do
      let _ ← expectIdentifier
      expectSymbol "\x7b"
      loop oneofStatement []) :=
  rfl

theorem append_sameUpTo
    {β : Type}
    {forget : α → β}
    {items others more moreOthers : List α}
    (alike : SameUpTo (List.map forget) items others)
    (moreAlike : SameUpTo (List.map forget) more moreOthers) :
    SameUpTo (List.map forget) (items ++ more) (others ++ moreOthers) := by
  obtain alike : items.map forget = others.map forget := alike
  obtain moreAlike : more.map forget = moreOthers.map forget := moreAlike
  rw [SameUpTo, List.map_append, List.map_append, alike, moreAlike]

theorem singleton_sameUpTo {β : Type} {forget : α → β} {item other : α}
    (alike : SameUpTo forget item other) : SameUpTo (List.map forget) [item] [other] :=
  congrArg (fun result => [result]) alike

theorem member_sameUpTo {field other : FieldDecl} (label : FieldLabel)
    (alike : SameUpTo FieldDecl.unplaced field other) :
    SameUpTo FieldDecl.unplaced { field with label := label } { other with label := label } := by
  have same : field.unplaced = other.unplaced := alike
  have labelled := congrArg (fun read : FieldDecl => { read with label := label }) same
  exact labelled

theorem repeats_oneofStatement {fields others : List FieldDecl}
    (alike : SameUpTo (List.map FieldDecl.unplaced) fields others) :
    Repeats (Round.Alike (SameUpTo (List.map FieldDecl.unplaced))
        (SameUpTo (List.map FieldDecl.unplaced))) 0 1
      (oneofStatement fields) (oneofStatement others) words := by
  unfold oneofStatement
  refine Repeats.ite_acceptWord 0 rfl (fun _ _ => repeats_pure (.done alike)) (fun _ => ?_) (by decide)
  refine Repeats.ite_acceptWord 0 rfl (fun _ _ => repeats_pure (.again alike)) (fun _ => ?_) (by decide)
  refine Repeats.weaken (Repeats.ite_keyword 1 (by decide) (fun _ _ _ => ?_) (fun _ => ?_)
    (by decide : 1 ≤ 0 + 1 ∧ 2 ≤ 1 + 1 ∧ 2 ≤ 0 + 2)) (by decide)
  · exact repeats_skipStatement.bind 0 (fun _ _ _ _ _ => repeats_pure (.again alike)) (by decide)
  · refine Repeats.ite_sees (fun _ => repeats_unexpected) (fun _ => ?_) (by decide)
    refine repeats_unlabelledField.bind 0 (fun member other _ _ members => ?_) (by decide)
    exact repeats_pure (.again (append_sameUpTo alike (singleton_sameUpTo
      (member_sameUpTo .optional members))))

theorem repeats_oneof :
    Repeats (SameUpTo (List.map FieldDecl.unplaced)) 0 3 oneof oneof words := by
  rw [oneof_eq]
  refine (repeats_expect rfl).bind 2 (fun _ _ _ _ _ => ?_) (by decide)
  refine (repeats_expectSymbol rfl).bind 1 (fun _ _ _ _ _ => ?_) (by decide)
  exact repeats_loop (SameUpTo (List.map FieldDecl.unplaced))
    (fun _ _ _ _ alike => repeats_oneofStatement alike) rfl

theorem repeats_extensionRange : Repeats (· = ·) 1 1 extensionRange extensionRange words := by
  unfold extensionRange
  refine repeats_fieldNumber.bind 0 ?_ (by decide)
  rintro start _ _ - rfl
  refine Repeats.ite_acceptWord 0 rfl (fun _ _ => ?_) (fun _ => repeats_pure rfl) (by decide)
  refine Repeats.ite_acceptWord 0 rfl (fun _ _ => repeats_pure rfl) (fun _ => ?_) (by decide)
  refine repeats_fieldNumber.bind 0 ?_ (by decide)
  rintro stop _ _ - rfl
  exact repeats_pure rfl

theorem repeats_extensionRanges : Repeats (· = ·) 0 2 extensionRanges extensionRanges words := by
  unfold extensionRanges
  refine repeats_loop (· = ·) ?_ rfl
  rintro ranges _ _ - rfl
  refine repeats_extensionRange.bind 1 ?_ (by decide)
  rintro range _ _ - rfl
  refine Repeats.ite_acceptWord 0 rfl (fun _ _ => repeats_pure (.again rfl)) (fun _ => ?_) (by decide)
  refine repeats_fieldOptions.bind 1 (fun _ _ _ _ _ => ?_) (by decide)
  exact (repeats_expectSymbol rfl).bind 0 (fun _ _ _ _ _ => repeats_pure (.done rfl)) (by decide)

/-! ### Enums and extend blocks -/

/-- A value of an enum up to its options. -/
def enumHead : Parser EnumValueDecl := do
  let name ← expectIdentifier
  expectSymbol "="
  let token ← expect TokenClass.isInteger "integer"
  match TokenClass.signedValue? token.text with
  | some number => pure ⟨name.text, name.position, number⟩
  | none => failAt token (.invalidInteger token.text)

theorem enumValue_eq :
    enumValue = (do
      let value ← enumHead
      let _ ← fieldOptions
      expectSymbol ";"
      pure value) := by
  unfold enumValue enumHead
  simp only [bind_assoc]
  refine congrArg (expectIdentifier >>= ·) (funext fun name => ?_)
  refine congrArg (expectSymbol "=" >>= ·) (funext fun _ => ?_)
  refine congrArg (expect TokenClass.isInteger "integer" >>= ·) (funext fun token => ?_)
  cases TokenClass.signedValue? token.text with
  | none => rfl
  | some number => rfl

/-- One statement of an enum. -/
def enumStatement (values : List EnumValueDecl) :
    Parser (Round (List EnumValueDecl) (List EnumValueDecl)) := do
  if ← acceptWord "\x7d" then pure (.done values)
  else if ← acceptWord ";" then pure (.again values)
  else if ← acceptWordBefore "option" (· != "=") then
    skipStatement
    pure (.again values)
  else if ← acceptWordBefore "reserved" (· != "=") then
    skipStatement
    pure (.again values)
  else pure (.again (values ++ [← enumValue]))

theorem enum_eq :
    enum = (do
      let name ← expectIdentifier
      expectSymbol "\x7b"
      let values ← loop enumStatement []
      pure ⟨name.text, name.position, values⟩) :=
  rfl

/-- One statement of an extend block. -/
def extendStatement (fields : List FieldDecl) :
    Parser (Round (List FieldDecl) (List FieldDecl)) := do
  if ← acceptWord "\x7d" then pure (.done fields)
  else if ← acceptWord ";" then pure (.again fields)
  else if ← atEnd then unexpected
  else pure (.again (fields ++ [← field]))

theorem extendBlock_eq :
    extendBlock = (do
      let name ← expect TokenClass.isTypeName "message name"
      expectSymbol "\x7b"
      let fields ← loop extendStatement []
      pure ⟨name.text, name.position, fields⟩) :=
  rfl

theorem repeats_enumHead :
    Repeats (SameUpTo EnumValueDecl.unplaced) 0 3 enumHead enumHead words := by
  unfold enumHead
  refine (repeats_expect rfl).bind 2 (fun name otherName _ _ names => ?_) (by decide)
  refine (repeats_expectSymbol rfl).bind 1 (fun _ _ _ _ _ => ?_) (by decide)
  refine (repeats_expect rfl).bind 0 (fun token other _ _ tokens => ?_) (by decide)
  obtain tokens : token.text = other.text := tokens
  obtain names : name.text = otherName.text := names
  rw [tokens, names]
  cases TokenClass.signedValue? other.text with
  | none => exact repeats_failAt
  | some number => exact repeats_pure rfl

theorem repeats_enumValue :
    Repeats (SameUpTo EnumValueDecl.unplaced) 0 4 enumValue enumValue words := by
  rw [enumValue_eq]
  refine repeats_enumHead.bind 1 (fun value other _ _ alike => ?_) (by decide)
  refine repeats_fieldOptions.bind 1 (fun _ _ _ _ _ => ?_) (by decide)
  exact (repeats_expectSymbol rfl).bind 0 (fun _ _ _ _ _ => repeats_pure alike) (by decide)

theorem repeats_enumStatement {values others : List EnumValueDecl}
    (alike : SameUpTo (List.map EnumValueDecl.unplaced) values others) :
    Repeats (Round.Alike (SameUpTo (List.map EnumValueDecl.unplaced))
        (SameUpTo (List.map EnumValueDecl.unplaced))) 0 1
      (enumStatement values) (enumStatement others) words := by
  unfold enumStatement
  refine Repeats.ite_acceptWord 0 rfl (fun _ _ => repeats_pure (.done alike)) (fun _ => ?_) (by decide)
  refine Repeats.ite_acceptWord 0 rfl (fun _ _ => repeats_pure (.again alike)) (fun _ => ?_) (by decide)
  refine Repeats.weaken (Repeats.ite_keyword 1 (by decide) (fun _ _ _ => ?_) (fun _ => ?_)
    (by decide : 1 ≤ 0 + 1 ∧ 2 ≤ 1 + 1 ∧ 2 ≤ 0 + 2)) (by decide)
  · exact repeats_skipStatement.bind 0 (fun _ _ _ _ _ => repeats_pure (.again alike)) (by decide)
  refine Repeats.ite_keyword 1 (by decide) (fun _ _ _ => ?_) (fun _ => ?_) (by decide)
  · exact repeats_skipStatement.bind 0 (fun _ _ _ _ _ => repeats_pure (.again alike)) (by decide)
  · refine repeats_enumValue.bind 0 (fun value other _ _ same => ?_) (by decide)
    exact repeats_pure (.again (append_sameUpTo alike (singleton_sameUpTo same)))

theorem repeats_enum : Repeats (SameUpTo EnumDecl.unplaced) 0 3 enum enum words := by
  rw [enum_eq]
  refine (repeats_expect rfl).bind 2 (fun name other _ _ names => ?_) (by decide)
  refine (repeats_expectSymbol rfl).bind 1 (fun _ _ _ _ _ => ?_) (by decide)
  refine Repeats.bind 0 (repeats_loop (SameUpTo (List.map EnumValueDecl.unplaced))
    (fun _ _ _ _ alike => repeats_enumStatement alike) rfl) (fun values others _ _ alike => ?_)
    (by decide)
  obtain names : name.text = other.text := names
  obtain alike : values.map EnumValueDecl.unplaced = others.map EnumValueDecl.unplaced := alike
  refine repeats_pure ?_
  rw [SameUpTo, EnumDecl.unplaced, EnumDecl.unplaced, names, alike]

theorem repeats_extendStatement {fields others : List FieldDecl}
    (alike : SameUpTo (List.map FieldDecl.unplaced) fields others) :
    Repeats (Round.Alike (SameUpTo (List.map FieldDecl.unplaced))
        (SameUpTo (List.map FieldDecl.unplaced))) 0 1
      (extendStatement fields) (extendStatement others) words := by
  unfold extendStatement
  refine Repeats.ite_acceptWord 0 rfl (fun _ _ => repeats_pure (.done alike)) (fun _ => ?_) (by decide)
  refine Repeats.ite_acceptWord 0 rfl (fun _ _ => repeats_pure (.again alike)) (fun _ => ?_) (by decide)
  refine Repeats.ite_sees (fun _ => repeats_unexpected) (fun _ => ?_) (by decide)
  refine repeats_field.bind 0 (fun member other _ _ members => ?_) (by decide)
  exact repeats_pure (.again (append_sameUpTo alike (singleton_sameUpTo members)))

theorem repeats_extendBlock :
    Repeats (SameUpTo ExtendDecl.unplaced) 0 3 extendBlock extendBlock words := by
  rw [extendBlock_eq]
  refine (repeats_expect rfl).bind 2 (fun name other _ _ names => ?_) (by decide)
  refine (repeats_expectSymbol rfl).bind 1 (fun _ _ _ _ _ => ?_) (by decide)
  refine Repeats.bind 0 (repeats_loop (SameUpTo (List.map FieldDecl.unplaced))
    (fun _ _ _ _ alike => repeats_extendStatement alike) rfl) (fun fields others _ _ alike => ?_)
    (by decide)
  obtain names : name.text = other.text := names
  obtain alike : fields.map FieldDecl.unplaced = others.map FieldDecl.unplaced := alike
  refine repeats_pure ?_
  rw [SameUpTo, ExtendDecl.unplaced, ExtendDecl.unplaced, names, alike]

/-! ### Messages -/

/-- A group of which at most one field is set needs its keyword, whatever stands behind. -/
theorem decides_otherOneof (different : words.headD "" ≠ "oneof") :
    Decides acceptOneof false 1 [] words := by
  intro other alike stream shows
  have verdict : Reads (acceptWordBefore "oneof" TokenClass.isIdentifier) other other (· = false) :=
    decides_otherWord different other alike
  change ∃ result next, (if (stream.ahead 2).text == "\x7b" then
    acceptWordBefore "oneof" TokenClass.isIdentifier else pure false) stream = _ ∧ _
  split
  · exact verdict stream shows
  · exact ⟨false, stream, rfl, shows, rfl⟩

theorem decides_oneof
    (name : TokenClass.isIdentifier (words.headD "") = true)
    (opens : (words[1]?.getD "" == "\x7b") = true) :
    Decides acceptOneof true 2 ["oneof"] words := by
  intro other alike stream shows
  have brace : ((stream.ahead 2).text == "\x7b") = true := by
    rw [shows.ahead_eq]
    change (other[1]?.getD "" == "\x7b") = true
    rwa [← getElem?_of_take alike Nat.one_lt_two]
  change ∃ result next, (if (stream.ahead 2).text == "\x7b" then
    acceptWordBefore "oneof" TokenClass.isIdentifier else pure false) stream = _ ∧ _
  rw [if_pos brace]
  exact (decides_keyword name).weaken (Nat.le_succ 1) other alike stream shows

theorem decides_noOneof
    (fails : (TokenClass.isIdentifier (words[1]?.getD "") && words[2]?.getD "" == "\x7b") = false) :
    Decides acceptOneof false 3 [] words := by
  intro other alike stream shows
  have third : (stream.ahead 2).text = words[2]?.getD "" := by
    rw [shows.ahead_eq, getElem?_of_take alike (Nat.lt_succ_self 2)]
    rfl
  change ∃ result next, (if (stream.ahead 2).text == "\x7b" then
    acceptWordBefore "oneof" TokenClass.isIdentifier else pure false) stream = _ ∧ _
  rw [third]
  split
  · rename_i brace
    rw [brace, Bool.and_true] at fails
    exact (decides_noKeyword fails).weaken (Nat.le_succ 2) other alike stream shows
  · exact ⟨false, stream, rfl, shows, rfl⟩

theorem Repeats.ite_oneof
    {yes no yesAgain noAgain : Parser α}
    (yesLeast : Nat)
    (accepted : ∀ more, words = "oneof" :: more → Repeats same look yesLeast yes yesAgain more)
    (refused : words.headD "" = "oneof" → Repeats same look 3 no noAgain words)
    (other : words.headD "" ≠ "oneof" → Repeats same look least no noAgain words)
    (bounds : 2 ≤ look + yesLeast ∧ least ≤ yesLeast + 1 ∧ least ≤ 3 ∧ 1 ≤ look + least) :
    Repeats same look least (do if ← acceptOneof then yes else no)
      (do if ← acceptOneof then yesAgain else noAgain) words := by
  by_cases isOneof : words.headD "" = "oneof"
  · cases verdict : TokenClass.isIdentifier (words[1]?.getD "") && words[2]?.getD "" == "\x7b" with
    | false =>
        refine (decides_noOneof verdict).repeats (refused isOneof) ⟨Nat.le_add_left .., ?_⟩
        exact Nat.le_trans bounds.2.2.1 (Nat.le_add_left ..)
    | true =>
        obtain ⟨name, opens⟩ := Bool.and_eq_true_iff.mp verdict
        cases words with
        | nil => exact absurd isOneof (by decide)
        | cons word more =>
            obtain rfl : word = "oneof" := isOneof
            have first : TokenClass.isIdentifier (more.headD "") = true := by
              rw [List.headD_eq_head?_getD, List.head?_eq_getElem?]
              exact name
            refine (decides_oneof first opens).repeats (accepted more rfl) ⟨bounds.1, ?_⟩
            rw [List.length_singleton]
            omega
  · exact (decides_otherOneof isOneof).repeats (other isOneof) ⟨bounds.2.2.2, Nat.le_add_left ..⟩

theorem MessageDecl.sameUpTo_iff {message other : MessageDecl} :
    SameUpTo MessageDecl.unplaced message other ↔
      message.name = other.name ∧
        SameUpTo (List.map FieldDecl.unplaced) message.fields other.fields ∧
        SameUpTo (List.map MessageDecl.unplaced) message.messages other.messages ∧
        SameUpTo (List.map EnumDecl.unplaced) message.enums other.enums ∧
        SameUpTo (List.map ExtendDecl.unplaced) message.extensions other.extensions ∧
        message.ranges = other.ranges := by
  rw [SameUpTo, MessageDecl.unplaced_eq, MessageDecl.unplaced_eq, MessageDecl.mk.injEq]
  constructor
  · rintro ⟨name, -, fields, messages, enums, extensions, ranges⟩
    exact ⟨name, fields, messages, enums, extensions, ranges⟩
  · rintro ⟨name, fields, messages, enums, extensions, ranges⟩
    exact ⟨name, rfl, fields, messages, enums, extensions, ranges⟩

/-- The statements of a message behind those that start with a keyword and a name. -/
private theorem repeats_lastStatements
    {message other : MessageDecl}
    (alike : SameUpTo MessageDecl.unplaced message other)
    (bounds : 2 ≤ least ∧ least ≤ 3)
    (skipped : words.headD "" = "reserved" ∨ words.headD "" = "option" → least = 2) :
    Repeats (Round.Alike (SameUpTo MessageDecl.unplaced) (SameUpTo MessageDecl.unplaced)) 0 least
      (do
        if ← acceptWordBefore "extensions" TokenClass.isInteger then
          pure (.again { message with ranges := message.ranges ++ (← extensionRanges) })
        else if ← acceptWordBefore "reserved" (· != "=") then
          skipStatement
          pure (.again message)
        else if ← acceptWordBefore "option" (· != "=") then
          skipStatement
          pure (.again message)
        else pure (.again { message with fields := message.fields ++ [← field] }))
      (do
        if ← acceptWordBefore "extensions" TokenClass.isInteger then
          pure (.again { other with ranges := other.ranges ++ (← extensionRanges) })
        else if ← acceptWordBefore "reserved" (· != "=") then
          skipStatement
          pure (.again other)
        else if ← acceptWordBefore "option" (· != "=") then
          skipStatement
          pure (.again other)
        else pure (.again { other with fields := other.fields ++ [← field] })) words := by
  obtain ⟨name, fields, messages, enums, extensions, ranges⟩ := MessageDecl.sameUpTo_iff.mp alike
  have keyword : 1 ≤ 0 + (least - 1) ∧ least ≤ least - 1 + 1 ∧ 2 ≤ 0 + least := by omega
  have passesOver {keyword : String} {more : List String} (whole : words = keyword :: more)
      (isSkipped : keyword = "reserved" ∨ keyword = "option") :
      Repeats (Round.Alike (SameUpTo MessageDecl.unplaced) (SameUpTo MessageDecl.unplaced)) 0
        (least - 1) (skipStatement >>= fun _ => pure (.again message))
        (skipStatement >>= fun _ => pure (.again other)) more := by
    have two : least = 2 := skipped (by rw [whole]; exact isSkipped)
    exact repeats_skipStatement.bind 0 (fun _ _ _ _ _ => repeats_pure (.again alike)) (by omega)
  refine Repeats.ite_keyword (least - 1) (by decide) (fun _ _ _ => ?_) (fun _ => ?_) keyword
  · refine repeats_extensionRanges.bind 0 ?_ (by omega)
    rintro found _ _ - rfl
    refine repeats_pure (.again (MessageDecl.sameUpTo_iff.mpr ?_))
    exact ⟨name, fields, messages, enums, extensions, by rw [ranges]⟩
  refine Repeats.ite_keyword (least - 1) (by decide) (fun _ whole _ => ?_) (fun _ => ?_) keyword
  · exact passesOver whole (.inl rfl)
  refine Repeats.ite_keyword (least - 1) (by decide) (fun _ whole _ => ?_) (fun _ => ?_) keyword
  · exact passesOver whole (.inr rfl)
  · refine repeats_field.bind 0 (fun member others _ _ members => ?_) (by omega)
    refine repeats_pure (.again (MessageDecl.sameUpTo_iff.mpr ?_))
    exact ⟨name, append_sameUpTo fields (singleton_sameUpTo members), messages, enums, extensions,
      ranges⟩

theorem repeats_messageStatement
    {nested nestedAgain : Parser MessageDecl}
    {message other : MessageDecl}
    (inner : ∀ more, more.length < words.length →
      Repeats (SameUpTo MessageDecl.unplaced) 0 3 nested nestedAgain more)
    (alike : SameUpTo MessageDecl.unplaced message other) :
    Repeats (Round.Alike (SameUpTo MessageDecl.unplaced) (SameUpTo MessageDecl.unplaced)) 0 1
      (messageStatement nested message) (messageStatement nestedAgain other) words := by
  obtain ⟨name, fields, messages, enums, extensions, ranges⟩ := MessageDecl.sameUpTo_iff.mp alike
  unfold messageStatement
  refine Repeats.ite_acceptWord 0 rfl (fun _ _ => repeats_pure (.done alike)) (fun _ => ?_) (by decide)
  refine Repeats.ite_acceptWord 0 rfl (fun _ _ => repeats_pure (.again alike)) (fun _ => ?_) (by decide)
  refine Repeats.ite_sees (fun _ => repeats_unexpected) (fun _ => ?_) (by decide)
  refine Repeats.weaken (Repeats.ite_keyword 3 (by decide) (fun more whole _ => ?_) (fun _ => ?_)
    (by decide : 1 ≤ 0 + 3 ∧ 2 ≤ 3 + 1 ∧ 2 ≤ 0 + 2)) (by decide)
  · have shorter : more.length < words.length := by
      rw [whole]
      exact Nat.lt_succ_self _
    refine (inner more shorter).bind 0 (fun read others _ _ same => ?_) (by decide)
    refine repeats_pure (.again (MessageDecl.sameUpTo_iff.mpr ?_))
    exact ⟨name, fields, append_sameUpTo messages (singleton_sameUpTo same), enums, extensions,
      ranges⟩
  refine Repeats.ite_keyword 3 (by decide) (fun _ _ _ => ?_) (fun _ => ?_) (by decide)
  · refine repeats_enum.bind 0 (fun read others _ _ same => ?_) (by decide)
    refine repeats_pure (.again (MessageDecl.sameUpTo_iff.mpr ?_))
    exact ⟨name, fields, messages, append_sameUpTo enums (singleton_sameUpTo same), extensions,
      ranges⟩
  refine Repeats.ite_keyword 3 (by decide) (fun _ _ _ => ?_) (fun _ => ?_) (by decide)
  · refine repeats_extendBlock.bind 0 (fun read others _ _ same => ?_) (by decide)
    refine repeats_pure (.again (MessageDecl.sameUpTo_iff.mpr ?_))
    exact ⟨name, fields, messages, enums, append_sameUpTo extensions (singleton_sameUpTo same),
      ranges⟩
  refine Repeats.ite_oneof 3 (fun _ _ => ?_) (fun isOneof => ?_) (fun _ => ?_) (by decide)
  · refine repeats_oneof.bind 0 (fun read others _ _ same => ?_) (by decide)
    refine repeats_pure (.again (MessageDecl.sameUpTo_iff.mpr ?_))
    exact ⟨name, append_sameUpTo fields same, messages, enums, extensions, ranges⟩
  · refine repeats_lastStatements alike (by decide) ?_
    rintro (reserved | option)
    · exact absurd (isOneof.symm.trans reserved) (by decide)
    · exact absurd (isOneof.symm.trans option) (by decide)
  · exact repeats_lastStatements alike (by decide) fun _ => rfl

/-- A message is read again if its bound on the levels is larger than the number of words. -/
theorem repeats_messageWithin {levels more : Nat} (enough : words.length < more) :
    Repeats (SameUpTo MessageDecl.unplaced) 0 3 (messageWithin levels) (messageWithin more)
      words := by
  induction levels generalizing more words with
  | zero => exact repeats_error fun stream => ⟨_, rfl⟩
  | succ levels inductionHypothesis =>
      obtain ⟨more, rfl⟩ := Nat.exists_eq_add_one.mpr (Nat.zero_lt_of_lt enough)
      unfold messageWithin
      refine (repeats_expect rfl).bind 2 (fun name other rest shorter names => ?_) (by decide)
      refine (repeats_expectSymbol rfl).bind 1 (fun _ _ inner fewer _ => ?_) (by decide)
      obtain names : name.text = other.text := names
      refine repeats_loop (SameUpTo MessageDecl.unplaced) (fun _ _ left least alike => ?_) ?_
      · refine repeats_messageStatement (fun behind few => ?_) alike
        exact inductionHypothesis (by omega)
      · exact MessageDecl.sameUpTo_iff.mpr ⟨names, rfl, rfl, rfl, rfl, rfl⟩

theorem repeats_message : Repeats (SameUpTo MessageDecl.unplaced) 0 3 message message words :=
  repeats_of_rounds fun _ _ _ enough => repeats_messageWithin enough

/-! ### Files -/

theorem repeats_editionStatement :
    Repeats (· = ·) 0 3 editionStatement editionStatement words := by
  unfold editionStatement
  refine (repeats_expectSymbol rfl).bind 2 (fun _ _ _ _ _ => ?_) (by decide)
  refine (repeats_expect rfl).bind 1 (fun token other _ _ tokens => ?_) (by decide)
  obtain tokens : token.text = other.text := tokens
  rw [tokens]
  dsimp only
  split
  · exact (repeats_expectSymbol rfl).bind 0 (fun _ _ _ _ _ => repeats_pure rfl) (by decide)
  · exact (repeats_expectSymbol rfl).bind 0 (fun _ _ _ _ _ => repeats_pure rfl) (by decide)
  · exact repeats_error fun _ => ⟨_, rfl⟩

theorem repeats_packageStatement {known : Option String} :
    Repeats (· = ·) 0 2 (packageStatement known) (packageStatement known) words := by
  unfold packageStatement
  refine (repeats_expect rfl).bind 1 (fun token other _ _ tokens => ?_) (by decide)
  obtain tokens : token.text = other.text := tokens
  rw [tokens]
  dsimp only
  split
  · exact repeats_error fun _ => ⟨_, rfl⟩
  · exact (repeats_expectSymbol rfl).bind 0 (fun _ _ _ _ _ => repeats_pure rfl) (by decide)

theorem repeats_importStatement :
    Repeats (· = ·) 0 2 importStatement importStatement words := by
  unfold importStatement
  refine (repeats_accept rfl).bind 2 (fun _ _ _ _ _ => ?_) (by decide)
  refine (repeats_expect rfl).bind 1 (fun token other _ _ tokens => ?_) (by decide)
  obtain tokens : token.text = other.text := tokens
  rw [tokens]
  cases TokenClass.stringValue? other.text with
  | none => exact repeats_failAt
  | some path =>
      exact (repeats_expectSymbol rfl).bind 0 (fun _ _ _ _ _ => repeats_pure rfl) (by decide)

theorem FileDecl.sameUpTo_iff {file other : FileDecl} :
    SameUpTo FileDecl.unplaced file other ↔
      file.edition = other.edition ∧ file.package = other.package ∧ file.imports = other.imports ∧
        SameUpTo (List.map MessageDecl.unplaced) file.messages other.messages ∧
        SameUpTo (List.map EnumDecl.unplaced) file.enums other.enums ∧
        SameUpTo (List.map ExtendDecl.unplaced) file.extensions other.extensions := by
  rw [SameUpTo, FileDecl.unplaced, FileDecl.unplaced, FileDecl.mk.injEq]
  rfl

/-- A statement in front of the end of the file. -/
theorem repeats_fileStatement
    {file other : FileDecl}
    (solid : (words.headD "").isEmpty = false)
    (alike : SameUpTo FileDecl.unplaced file other) :
    Repeats (Round.Alike (SameUpTo FileDecl.unplaced) (SameUpTo FileDecl.unplaced)) 0 1
      (fileStatement file) (fileStatement other) words := by
  obtain ⟨edition, package, imports, messages, enums, extensions⟩ := FileDecl.sameUpTo_iff.mp alike
  unfold fileStatement
  refine (decides_refuse solid).repeats (?_ : Repeats _ 0 1 _ _ words) (by decide)
  refine Repeats.ite_acceptWord 0 rfl (fun _ _ => repeats_pure (.again alike)) (fun _ => ?_) (by decide)
  refine Repeats.ite_acceptWord 3 rfl (fun _ _ => ?_) (fun _ => ?_) (by decide)
  · refine repeats_editionStatement.bind 0 ?_ (by decide)
    rintro found _ _ - rfl
    refine repeats_pure (.again (FileDecl.sameUpTo_iff.mpr ?_))
    exact ⟨rfl, package, imports, messages, enums, extensions⟩
  refine Repeats.ite_acceptWord 2 rfl (fun _ _ => ?_) (fun _ => ?_) (by decide)
  · rw [package]
    refine repeats_packageStatement.bind 0 ?_ (by decide)
    rintro found _ _ - rfl
    refine repeats_pure (.again (FileDecl.sameUpTo_iff.mpr ?_))
    exact ⟨edition, rfl, imports, messages, enums, extensions⟩
  refine Repeats.ite_acceptWord 2 rfl (fun _ _ => ?_) (fun _ => ?_) (by decide)
  · refine repeats_importStatement.bind 0 ?_ (by decide)
    rintro found _ _ - rfl
    refine repeats_pure (.again (FileDecl.sameUpTo_iff.mpr ?_))
    exact ⟨edition, package, by rw [imports], messages, enums, extensions⟩
  refine Repeats.ite_acceptWord 1 rfl (fun _ _ => ?_) (fun _ => ?_) (by decide)
  · exact repeats_skipStatement.bind 0 (fun _ _ _ _ _ => repeats_pure (.again alike)) (by decide)
  refine Repeats.ite_acceptWord 3 rfl (fun _ _ => ?_) (fun _ => ?_) (by decide)
  · refine repeats_message.bind 0 (fun read others _ _ same => ?_) (by decide)
    refine repeats_pure (.again (FileDecl.sameUpTo_iff.mpr ?_))
    exact ⟨edition, package, imports, append_sameUpTo messages (singleton_sameUpTo same), enums,
      extensions⟩
  refine Repeats.ite_acceptWord 3 rfl (fun _ _ => ?_) (fun _ => ?_) (by decide)
  · refine repeats_enum.bind 0 (fun read others _ _ same => ?_) (by decide)
    refine repeats_pure (.again (FileDecl.sameUpTo_iff.mpr ?_))
    exact ⟨edition, package, imports, messages, append_sameUpTo enums (singleton_sameUpTo same),
      extensions⟩
  refine Repeats.ite_acceptWord 3 rfl (fun _ _ => ?_) (fun _ => ?_) (by decide)
  · refine repeats_extendBlock.bind 0 (fun read others _ _ same => ?_) (by decide)
    refine repeats_pure (.again (FileDecl.sameUpTo_iff.mpr ?_))
    exact ⟨edition, package, imports, messages, enums,
      append_sameUpTo extensions (singleton_sameUpTo same)⟩
  refine Repeats.ite_acceptWord 3 rfl (fun _ _ => ?_) (fun _ => repeats_unexpected) (by decide)
  refine (repeats_expect rfl).bind 2 (fun _ _ _ _ _ => ?_) (by decide)
  exact repeats_skipBlock.bind 0 (fun _ _ _ _ _ => repeats_pure (.again alike)) (by decide)

private theorem decides_end : Decides (accept String.isEmpty) true 1 [] [] := by
  intro other alike
  cases other with
  | nil => exact reads_end
  | cons word others => cases alike

/-- A statement, or the end of the file, which is seen. -/
theorem repeats_fileRound
    {file other : FileDecl}
    (alike : SameUpTo FileDecl.unplaced file other) :
    Repeats (Round.Alike (SameUpTo FileDecl.unplaced) (SameUpTo FileDecl.unplaced)) 1 0
      (fileStatement file) (fileStatement other) words := by
  cases words with
  | nil => exact decides_end.repeats (repeats_pure (.done alike)) (by decide)
  | cons word more =>
      cases ends : word.isEmpty with
      | false =>
          have solid : ((word :: more).headD "").isEmpty = false := ends
          exact (repeats_fileStatement solid alike).weaken (by decide)
      | true =>
          refine (decides_accept ends).repeats (repeats_pure (.done alike)) ?_
          exact ⟨Nat.zero_le _, Nat.zero_le _⟩

end Parser

theorem TokenStream.exists_of_texts {tokens : List Token} {words : List String}
    (texts : tokens.map Token.text = words ++ [""]) :
    ∃ token others, tokens = token :: others ∧ (⟨token, others⟩ : TokenStream).Shows words := by
  cases tokens with
  | nil => exact absurd texts.symm (List.append_ne_nil_of_right_ne_nil words (List.cons_ne_nil _ _))
  | cons token others => exact ⟨token, others, rfl, texts⟩

/-- Tokens with the same texts stand for the same file up to positions. -/
theorem FileDecl.ofTokens_again
    {tokens again : List Token}
    {words : List String}
    (texts : tokens.map Token.text = words ++ [""])
    (textsAgain : again.map Token.text = words ++ [""])
    {file : FileDecl}
    (accepted : FileDecl.ofTokens tokens = .ok file) :
    ∃ other, FileDecl.ofTokens again = .ok other ∧ SameUpTo FileDecl.unplaced file other := by
  obtain ⟨token, others, rfl, shows⟩ := TokenStream.exists_of_texts texts
  obtain ⟨first, following, rfl, showsAgain⟩ := TokenStream.exists_of_texts textsAgain
  have rounds : Parser.Repeats (SameUpTo FileDecl.unplaced) 1 0
      (Parser.loop Parser.fileStatement .empty) (Parser.loop Parser.fileStatement .empty) words :=
    Parser.repeats_loop (SameUpTo FileDecl.unplaced)
      (fun _ _ _ _ alike => Parser.repeats_fileRound alike) rfl
  obtain ⟨⟨result, last⟩, ok, rfl⟩ := Outcome.map_eq_ok.mp accepted
  obtain ⟨rest, -, reads⟩ := rounds.reads shows ok
  obtain ⟨other, next, okAgain, -, same⟩ := reads _ showsAgain
  exact ⟨other, Outcome.map_eq_ok.mpr ⟨_, okAgain, rfl⟩, same⟩

/-- Tokens with the same texts stand for files together. -/
theorem FileDecl.toOption_ofTokens_again
    {tokens again : List Token}
    {words : List String}
    (texts : tokens.map Token.text = words ++ [""])
    (textsAgain : again.map Token.text = words ++ [""]) :
    (FileDecl.ofTokens tokens).toOption.map FileDecl.unplaced =
      (FileDecl.ofTokens again).toOption.map FileDecl.unplaced := by
  cases accepted : FileDecl.ofTokens tokens with
  | ok file =>
      obtain ⟨other, acceptedAgain, same⟩ := FileDecl.ofTokens_again texts textsAgain accepted
      rw [acceptedAgain]
      exact congrArg some same
  | error cause =>
      cases acceptedAgain : FileDecl.ofTokens again with
      | error other => rfl
      | ok file =>
          obtain ⟨other, ok, -⟩ := FileDecl.ofTokens_again textsAgain texts acceptedAgain
          rw [accepted] at ok
          cases ok

end ProtoWire.Proto
