import ProtoWire.Proofs.Proto.Expectation
import ProtoWire.Proofs.Proto.Grammatical
import ProtoWire.Proofs.Proto.Rendering
import ProtoWire.Proofs.Proto.Strings

/-!
Contract: declarations that obey the rules of the grammar are read back from their words.

Owns:
- one statement per parser: it reads the words of a declaration and returns the declaration.

Does not own: the text between the words, or that parsed declarations obey the rules.
-/

namespace ProtoWire.Proto.Parser

/-- No name is a symbol. -/
theorem ne_of_isIdentifier
    {name symbol : String}
    (isName : TokenClass.isIdentifier name = true)
    (noName : TokenClass.isIdentifier symbol = false) :
    name ≠ symbol := by
  rintro rfl
  rw [isName] at noName
  cases noName

theorem ne_of_isTypeName
    {name symbol : String}
    (isName : TokenClass.isTypeName name = true)
    (noName : TokenClass.isTypeName symbol = false) :
    name ≠ symbol := by
  rintro rfl
  rw [isName] at noName
  cases noName

theorem isEmpty_of_isTypeName {name : String} (isName : TokenClass.isTypeName name = true) :
    name.isEmpty = false := by
  rw [Bool.eq_false_iff]
  intro empty
  rw [String.isEmpty_iff.mp empty] at isName
  cases isName

/-- A word that is spelled like a name neither ends a block nor is passed over. -/
theorem Reads.statement
    {α : Type}
    {ended passed atEnd goesOn : Parser α}
    {word : String}
    {words after : List String}
    {outcome : α → Prop}
    (isName : TokenClass.isTypeName word = true)
    (reads : Reads goesOn (word :: words) after outcome) :
    Reads
      (do
        if ← acceptWord "\x7d" then ended
        else if ← acceptWord ";" then passed
        else if ← Parser.atEnd then atEnd
        else goesOn)
      (word :: words) after outcome := by
  refine .refusedWord (ne_of_isTypeName isName (by decide)) ?_
  refine .refusedWord (ne_of_isTypeName isName (by decide)) ?_
  exact .unseen rfl (isEmpty_of_isTypeName isName) reads

variable {words : List String}

/-! ### Fields -/

theorem reads_fieldNumber {number : Nat} (small : number ≤ WordRange.maxUInt32) :
    Reads fieldNumber (toString number :: words) words (· = number) := by
  refine (reads_expect (isInteger_decimal number)).bind fun token text => ?_
  rw [text, unsignedValue?_toString small]
  exact reads_pure rfl

theorem reads_fieldLabel
    {label : FieldLabel}
    {word : String}
    (bare : label = .none → word ∉ labelKeywords) :
    Reads fieldLabel (label.words ++ word :: words) (word :: words) (· = label) := by
  unfold fieldLabel
  cases label with
  | none =>
      have plain := bare rfl
      simp only [labelKeywords, List.mem_cons, List.not_mem_nil, or_false, not_or] at plain
      exact .refusedWord plain.1 (.refusedWord plain.2.1 (.refusedWord plain.2.2 (reads_pure rfl)))
  | optional => exact .acceptedWord (reads_pure rfl)
  | required => exact .refusedWord (by decide) (.acceptedWord (reads_pure rfl))
  | repeated =>
      exact .refusedWord (by decide) (.refusedWord (by decide) (.acceptedWord (reads_pure rfl)))

theorem reads_fieldType {field : FieldDecl} (grammatical : field.Grammatical) :
    Reads fieldType (field.typeWords ++ field.name :: words) (field.name :: words)
      (· = (field.type, field.map)) := by
  unfold fieldType FieldDecl.typeWords
  cases known : field.map with
  | none =>
      refine .noKeyword (fun _ => ?_) ?_
      · exact beq_false_of_ne (ne_of_isIdentifier grammatical.name (by decide))
      · refine (reads_expect grammatical.type).bind fun token text => ?_
        exact reads_pure (by rw [text])
  | some map =>
      obtain ⟨key, value⟩ := grammatical.map map known
      have valueName : TokenClass.isTypeName map.value = true := value ▸ grammatical.type
      refine .keyword (by decide) ?_
      refine (reads_expectSymbol "<").bind fun _ _ => ?_
      refine (reads_expect key).bind fun keyToken keyText => ?_
      refine (reads_expectSymbol ",").bind fun _ _ => ?_
      refine (reads_expect valueName).bind fun valueToken valueText => ?_
      refine (reads_expectSymbol ">").bind fun _ _ => ?_
      refine reads_pure ?_
      rw [keyText, valueText, ← value]

theorem reads_optionName :
    Reads optionName ("packed" :: "=" :: words) ("=" :: words) (· = "packed") := by
  refine Loops.reads (loops_done ?_)
  refine .refusedWord (by decide) ?_
  refine (reads_expect (by decide)).bind fun token text => ?_
  rw [pure_bind]
  refine .unseen rfl (by decide +kernel) ?_
  exact reads_pure ⟨_, rfl, by rw [text]; rfl⟩

theorem reads_flag (value : Bool) :
    Reads flag ((if value then "true" else "false") :: words) words (· = value) := by
  have goesOn (word : String) :
      Reads (pure value >>= fun found => advance >>= fun _ => pure found) (word :: words) words
        (· = value) := by
    rw [pure_bind]
    exact reads_advance.bind fun _ _ => reads_pure rfl
  refine reads_current.bind fun token text => ?_
  cases value with
  | true =>
      rw [if_pos rfl] at text
      simp only [text]
      exact goesOn _
  | false =>
      rw [if_neg Bool.false_ne_true] at text
      simp only [text]
      exact goesOn _

theorem reads_fieldOptions (packed : Option Bool) :
    Reads fieldOptions (packedWords packed ++ ";" :: words) (";" :: words) (· = packed) := by
  unfold fieldOptions
  cases packed with
  | none => exact .refusedWord (by decide) (reads_pure rfl)
  | some value =>
      refine .acceptedWord (Loops.reads (loops_done ?_))
      refine reads_optionName.bind ?_
      rintro _ rfl
      refine (reads_expectSymbol "=").bind fun _ _ => ?_
      have reads : Reads (some <$> flag)
          ((if value then "true" else "false") :: "]" :: ";" :: words) ("]" :: ";" :: words)
          (· = some value) := by
        rw [map_eq_pure_bind]
        refine (reads_flag value).bind ?_
        rintro _ rfl
        exact reads_pure rfl
      refine reads.bind ?_
      rintro _ rfl
      refine .refusedWord (by decide) ?_
      refine (reads_expectSymbol "]").bind fun _ _ => ?_
      exact reads_pure ⟨_, rfl, rfl⟩

/-- A field is no group: the fifth word from its type on opens no block, unless the field is a
map. -/
private theorem exists_noGroup (field : FieldDecl) (words : List String) :
    ∃ first fifth, (field.unlabelledWords ++ words)[0]? = some first ∧
      (field.unlabelledWords ++ words)[4]? = some fifth ∧
        (first == "group" && fifth == "\x7b") = false := by
  rw [FieldDecl.unlabelledWords, FieldDecl.typeWords]
  cases field.map with
  | some map => exact ⟨"map", map.value, rfl, rfl, rfl⟩
  | none =>
      cases field.packed with
      | none => exact ⟨field.type, ";", rfl, rfl, Bool.and_false _⟩
      | some packed => exact ⟨field.type, "[", rfl, rfl, Bool.and_false _⟩

theorem reads_unlabelledField
    {field : FieldDecl}
    (grammatical : field.Grammatical)
    (label : FieldLabel) :
    Reads (unlabelledField label) (field.unlabelledWords ++ words) words fun read =>
      read.unplaced = { field with label := label }.unplaced := by
  obtain ⟨first, fifth, firstSeen, fifthSeen, noGroup⟩ := exists_noGroup field words
  unfold unlabelledField
  refine (reads_sees firstSeen).bind ?_
  rintro _ rfl
  refine (reads_sees fifthSeen).bind ?_
  rintro _ rfl
  rw [noGroup, FieldDecl.unlabelledWords, List.append_assoc, List.cons_append, List.cons_append,
    List.cons_append, List.append_assoc]
  refine (reads_fieldType grammatical).bind ?_
  rintro _ rfl
  refine (reads_expectIdentifier grammatical.name).bind fun name nameText => ?_
  refine (reads_expectSymbol "=").bind fun _ _ => ?_
  refine (reads_fieldNumber grammatical.tag).bind ?_
  rintro _ rfl
  refine (reads_fieldOptions field.packed).bind ?_
  rintro _ rfl
  refine (reads_expectSymbol ";").bind fun _ _ => ?_
  refine reads_pure ?_
  rw [FieldDecl.unplaced, FieldDecl.unplaced, nameText]

/-- A field starts with its type and its name behind the label, or with the keyword of maps. -/
private theorem unlabelledWords_cases (field : FieldDecl) :
    (field.map = none ∧ ∃ rest, field.unlabelledWords = field.type :: field.name :: "=" :: rest) ∨
      ∃ key rest, field.unlabelledWords = "map" :: "<" :: key :: rest := by
  rw [FieldDecl.unlabelledWords, FieldDecl.typeWords]
  cases field.map with
  | none => exact .inl ⟨rfl, _, rfl⟩
  | some map => exact .inr ⟨_, _, rfl⟩

private theorem fieldWords_ne_nil (field : FieldDecl) : field.words ≠ [] := by
  refine List.append_ne_nil_of_right_ne_nil _ ?_
  rcases unlabelledWords_cases field with ⟨-, rest, same⟩ | ⟨key, rest, same⟩
  · exact same ▸ List.cons_ne_nil _ _
  · exact same ▸ List.cons_ne_nil _ _

/-- A field starts with a word that is spelled like a name. It starts no other statement. -/
private theorem exists_words {field : FieldDecl} (grammatical : field.Grammatical) :
    ∃ first second third rest, field.words = first :: second :: third :: rest ∧
      TokenClass.isTypeName first = true ∧
      (field.StartsNoStatement → first ∉ statementKeywords) ∧
      (first = "oneof" → third = "=") ∧
      (first = "extensions" → TokenClass.isInteger second = false) := by
  rw [FieldDecl.words]
  rcases unlabelledWords_cases field with ⟨noMap, rest, same⟩ | ⟨key, rest, same⟩
  · rw [same]
    cases label : field.label with
    | none =>
        refine ⟨_, _, _, _, rfl, grammatical.type, fun starts => starts label noMap, fun _ => rfl,
          fun _ => isInteger_of_isIdentifier grammatical.name⟩
    | optional => exact ⟨_, _, _, _, rfl, by decide, fun _ => by decide, nofun, nofun⟩
    | required => exact ⟨_, _, _, _, rfl, by decide, fun _ => by decide, nofun, nofun⟩
    | repeated => exact ⟨_, _, _, _, rfl, by decide, fun _ => by decide, nofun, nofun⟩
  · rw [same]
    cases field.label with
    | none => exact ⟨_, _, _, _, rfl, by decide, fun _ => by decide, nofun, nofun⟩
    | optional => exact ⟨_, _, _, _, rfl, by decide, fun _ => by decide, nofun, nofun⟩
    | required => exact ⟨_, _, _, _, rfl, by decide, fun _ => by decide, nofun, nofun⟩
    | repeated => exact ⟨_, _, _, _, rfl, by decide, fun _ => by decide, nofun, nofun⟩

theorem reads_field {declared : FieldDecl} (grammatical : declared.Grammatical) :
    Reads field (declared.words ++ words) words (·.unplaced = declared.unplaced) := by
  obtain ⟨first, rest, same, bare⟩ : ∃ first rest, declared.unlabelledWords = first :: rest ∧
      (declared.label = .none → first ∉ labelKeywords) := by
    rcases unlabelledWords_cases declared with ⟨noMap, rest, same⟩ | ⟨key, rest, same⟩
    · exact ⟨_, _, same, fun noLabel => grammatical.bare noLabel noMap⟩
    · exact ⟨_, _, same, fun _ => by decide⟩
  have label : Reads fieldLabel (declared.words ++ words) (declared.unlabelledWords ++ words)
      (· = declared.label) := by
    rw [FieldDecl.words, List.append_assoc, same]
    exact reads_fieldLabel bare
  refine label.bind ?_
  rintro _ rfl
  exact reads_unlabelledField grammatical declared.label

/-! ### Enums, ranges and extend blocks -/

theorem reads_enumValue
    {value : EnumValueDecl}
    (name : TokenClass.isIdentifier value.name = true) :
    Reads enumValue (value.words ++ words) words (·.unplaced = value.unplaced) := by
  refine (reads_expectIdentifier name).bind fun nameToken nameText => ?_
  refine (reads_expectSymbol "=").bind fun _ _ => ?_
  refine (reads_expect (isInteger_toString value.number.toInt)).bind fun token text => ?_
  rw [text, signedValue?_toString]
  simp only [pure_bind]
  refine (reads_fieldOptions none).bind ?_
  rintro _ rfl
  refine (reads_expectSymbol ";").bind fun _ _ => ?_
  refine reads_pure ?_
  rw [EnumValueDecl.unplaced, EnumValueDecl.unplaced, nameText]

theorem reads_enum {declared : EnumDecl} (grammatical : declared.Grammatical) :
    Reads enum (declared.words.tail ++ words) words (·.unplaced = declared.unplaced) := by
  have same : declared.words.tail ++ words = declared.name :: "\x7b" ::
      (declared.values.flatMap EnumValueDecl.words ++ "\x7d" :: words) := by
    simp [EnumDecl.words]
  rw [same]
  refine (reads_expectIdentifier grammatical.name).bind fun nameToken nameText => ?_
  refine (reads_expectSymbol "\x7b").bind fun _ _ => ?_
  refine Reads.bind (?_ : Reads _ _ words fun values =>
    values.map EnumValueDecl.unplaced = declared.values.map EnumValueDecl.unplaced) ?_
  · refine (loops_items EnumValueDecl.words (fun done values =>
      values.map EnumValueDecl.unplaced = done.map EnumValueDecl.unplaced) ?_ ?_ ?_ rfl).reads
    · exact fun value => List.cons_ne_nil _ _
    · intro done value values behind member known
      have name := grammatical.values value member
      refine .refusedWord (ne_of_isIdentifier name (by decide)) ?_
      refine .refusedWord (ne_of_isIdentifier name (by decide)) ?_
      refine .noKeyword (fun _ => rfl) (.noKeyword (fun _ => rfl) ?_)
      refine (reads_enumValue name).bind fun read same => ?_
      refine reads_pure ⟨_, rfl, ?_⟩
      rw [List.map_append, List.map_append, known, List.map_singleton, List.map_singleton, same]
    · intro values known
      exact loops_done (.acceptedWord (reads_pure ⟨values, rfl, known⟩))
  · intro values known
    refine reads_pure ?_
    rw [EnumDecl.unplaced, EnumDecl.unplaced, nameText, known]

theorem reads_extendBlock {declared : ExtendDecl} (grammatical : declared.Grammatical) :
    Reads extendBlock (declared.words.tail ++ words) words (·.unplaced = declared.unplaced) := by
  have same : declared.words.tail ++ words = declared.name :: "\x7b" ::
      (declared.fields.flatMap FieldDecl.words ++ "\x7d" :: words) := by
    simp [ExtendDecl.words]
  rw [same]
  refine (reads_expect grammatical.name).bind fun nameToken nameText => ?_
  refine (reads_expectSymbol "\x7b").bind fun _ _ => ?_
  refine Reads.bind (?_ : Reads _ _ words fun fields =>
    fields.map FieldDecl.unplaced = declared.fields.map FieldDecl.unplaced) ?_
  · refine (loops_items FieldDecl.words (fun done fields =>
      fields.map FieldDecl.unplaced = done.map FieldDecl.unplaced) ?_ ?_ ?_ rfl).reads
    · exact fieldWords_ne_nil
    · intro done declaration fields behind member known
      have grammatical := grammatical.fields declaration member
      obtain ⟨first, second, third, rest, same, isName, -⟩ := exists_words grammatical
      have reads : Reads field (declaration.words ++ behind) behind _ := reads_field grammatical
      rw [same] at reads ⊢
      refine .statement isName ?_
      refine reads.bind fun read same => ?_
      refine reads_pure ⟨_, rfl, ?_⟩
      rw [List.map_append, List.map_append, known, List.map_singleton, List.map_singleton, same]
    · intro values known
      exact loops_done (.acceptedWord (reads_pure ⟨values, rfl, known⟩))
  · intro fields known
    refine reads_pure ?_
    rw [ExtendDecl.unplaced, ExtendDecl.unplaced, nameText, known]

/-! ### Messages -/

theorem reads_extensionRanges {range : ExtensionRange} (grammatical : range.Grammatical) :
    Reads extensionRanges (toString range.start :: "to" :: toString range.stop :: ";" :: words)
      words (· = [range]) := by
  have noMax : toString range.stop ≠ "max" := by
    intro same
    have number := isInteger_decimal range.stop
    rw [same] at number
    exact absurd number (by decide)
  have reads : Reads extensionRange
      (toString range.start :: "to" :: toString range.stop :: ";" :: words) (";" :: words)
      (· = range) := by
    refine (reads_fieldNumber grammatical.1).bind ?_
    rintro _ rfl
    refine .acceptedWord (.refusedWord noMax ?_)
    refine (reads_fieldNumber grammatical.2).bind ?_
    rintro _ rfl
    exact reads_pure rfl
  refine (loops_done (reads.bind ?_)).reads
  rintro _ rfl
  refine .refusedWord (by decide) ?_
  refine (reads_fieldOptions none).bind fun _ _ => ?_
  refine (reads_expectSymbol ";").bind fun _ _ => ?_
  exact reads_pure ⟨_, rfl, rfl⟩

section Statements

variable {nested : Parser MessageDecl} {message : MessageDecl}

/-- A keyword other than that of a group, or this keyword without a group behind it. -/
private theorem Reads.noOneof
    {α : Type}
    {yes no : Parser α}
    {first second third : String}
    {after : List String}
    {outcome : α → Prop}
    (refuses : first = "oneof" → third = "=")
    (reads : Reads no (first :: second :: third :: words) after outcome) :
    Reads (do if ← acceptOneof then yes else no) (first :: second :: third :: words) after
      outcome := by
  have refused : Reads acceptOneof (first :: second :: third :: words)
      (first :: second :: third :: words) (· = false) := by
    unfold acceptOneof
    refine (reads_sees rfl).bind ?_
    rintro _ rfl
    cases opens : third == "\x7b" with
    | false => exact reads_pure rfl
    | true =>
        have different : first ≠ "oneof" := by
          intro same
          rw [refuses same] at opens
          cases opens
        refine (reads_sees rfl).bind ?_
        rintro _ rfl
        cases TokenClass.isIdentifier second with
        | false => exact reads_pure rfl
        | true => exact reads_refuseWord different
  refine refused.bind ?_
  rintro _ rfl
  exact reads

theorem reads_fieldStatement
    {declared : FieldDecl}
    (grammatical : declared.Grammatical)
    (starts : declared.StartsNoStatement) :
    Reads (messageStatement nested message) (declared.words ++ words) words fun decision =>
      ∃ next, decision = .again next ∧ next.unplaced =
        { message.unplaced with fields := message.unplaced.fields ++ [declared.unplaced] } := by
  obtain ⟨first, second, third, rest, same, isName, noStatement, noOneof, noRange⟩ :=
    exists_words grammatical
  have reads : Reads field (declared.words ++ words) words _ := reads_field grammatical
  have plain := noStatement starts
  simp only [statementKeywords, List.mem_cons, List.not_mem_nil, or_false, not_or] at plain
  obtain ⟨noMessage, noEnum, noExtend, noReserved, noOption⟩ := plain
  rw [same] at reads ⊢
  refine .statement isName ?_
  refine .noKeyword (fun equal => absurd equal noMessage) ?_
  refine .noKeyword (fun equal => absurd equal noEnum) ?_
  refine .noKeyword (fun equal => absurd equal noExtend) ?_
  refine .noOneof noOneof ?_
  refine .noKeyword noRange ?_
  refine .noKeyword (fun equal => absurd equal noReserved) ?_
  refine .noKeyword (fun equal => absurd equal noOption) ?_
  refine reads.bind fun read equal => ?_
  refine reads_pure ⟨_, rfl, ?_⟩
  simp only [MessageDecl.unplaced_eq, List.map_append, List.map_cons, List.map_nil, equal]

theorem reads_rangeStatement {range : ExtensionRange} (grammatical : range.Grammatical) :
    Reads (messageStatement nested message) (range.words ++ words) words fun decision =>
      ∃ next, decision = .again next ∧ next.unplaced =
        { message.unplaced with ranges := message.unplaced.ranges ++ [range] } := by
  refine .statement (by decide) ?_
  refine .noKeyword nofun (.noKeyword nofun (.noKeyword nofun (.noOneof nofun ?_)))
  refine .keyword (isInteger_decimal range.start) ?_
  refine (reads_extensionRanges grammatical).bind ?_
  rintro _ rfl
  refine reads_pure ⟨_, rfl, ?_⟩
  simp only [MessageDecl.unplaced_eq]

theorem reads_nestedStatement
    {declared : MessageDecl}
    (grammatical : declared.Grammatical)
    (reads : Reads nested (declared.words.tail ++ words) words (·.unplaced = declared.unplaced)) :
    Reads (messageStatement nested message) (declared.words ++ words) words fun decision =>
      ∃ next, decision = .again next ∧ next.unplaced =
        { message.unplaced with messages := message.unplaced.messages ++ [declared.unplaced] } := by
  obtain ⟨name⟩ := grammatical
  rw [MessageDecl.words_eq] at reads ⊢
  refine .statement (by decide) ?_
  refine .keyword name ?_
  refine reads.bind fun read equal => ?_
  refine reads_pure ⟨_, rfl, ?_⟩
  simp only [MessageDecl.unplaced_eq message, MessageDecl.unplaced_eq { message with
    messages := message.messages ++ [read] }, List.map_append, List.map_cons, List.map_nil, equal]

theorem reads_enumStatement {declared : EnumDecl} (grammatical : declared.Grammatical) :
    Reads (messageStatement nested message) (declared.words ++ words) words fun decision =>
      ∃ next, decision = .again next ∧ next.unplaced =
        { message.unplaced with enums := message.unplaced.enums ++ [declared.unplaced] } := by
  have reads : Reads enum (declared.words.tail ++ words) words _ := reads_enum grammatical
  refine .statement (by decide) ?_
  refine .noKeyword nofun (.keyword grammatical.name ?_)
  refine reads.bind fun read equal => ?_
  refine reads_pure ⟨_, rfl, ?_⟩
  simp only [MessageDecl.unplaced_eq, List.map_append, List.map_cons, List.map_nil, equal]

theorem reads_extendStatement {declared : ExtendDecl} (grammatical : declared.Grammatical) :
    Reads (messageStatement nested message) (declared.words ++ words) words fun decision =>
      ∃ next, decision = .again next ∧ next.unplaced =
        { message.unplaced with
          extensions := message.unplaced.extensions ++ [declared.unplaced] } := by
  have reads : Reads extendBlock (declared.words.tail ++ words) words _ :=
    reads_extendBlock grammatical
  refine .statement (by decide) ?_
  refine .noKeyword nofun (.noKeyword nofun (.keyword grammatical.name ?_))
  refine reads.bind fun read equal => ?_
  refine reads_pure ⟨_, rfl, ?_⟩
  simp only [MessageDecl.unplaced_eq, List.map_append, List.map_cons, List.map_nil, equal]

end Statements

/-- The words of a nested message are fewer than those of the message around it. -/
private theorem length_nested {message nested : MessageDecl} (member : nested ∈ message.messages) :
    nested.words.length < message.words.length := by
  obtain ⟨front, back, parts⟩ := List.append_of_mem member
  rw [MessageDecl.words_eq message, parts, List.flatMap_append, List.flatMap_cons]
  simp only [List.length_cons, List.length_append]
  omega

/-- The nesting is bounded by the words, since a message has its own words besides those of the
messages inside of it. -/
theorem reads_messageWithin {declared : MessageDecl} (grammatical : declared.Grammatical) :
    ∀ {levels : Nat} {words : List String}, declared.words.length ≤ levels →
      Reads (messageWithin levels) (declared.words.tail ++ words) words
        (·.unplaced = declared.unplaced) := by
  induction grammatical with
  | @intro declared name fields ranges messages enums extensions inductionHypothesis =>
      intro levels words bound
      obtain ⟨levels, rfl⟩ : ∃ less, levels = less + 1 := by
        rw [MessageDecl.words_eq] at bound
        exact Nat.exists_eq_add_one.mpr (Nat.lt_of_lt_of_le (Nat.succ_pos _) bound)
      have nested (message : MessageDecl) (member : message ∈ declared.messages)
          (behind : List String) : Reads (messageWithin levels) (message.words.tail ++ behind)
            behind (·.unplaced = message.unplaced) :=
        inductionHypothesis message member
          (Nat.le_of_lt_succ (Nat.lt_of_lt_of_le (length_nested member) bound))
      have same : declared.words.tail ++ words = declared.name :: "\x7b" ::
          (declared.fields.flatMap FieldDecl.words ++
            (declared.ranges.flatMap ExtensionRange.words ++
              (declared.messages.flatMap MessageDecl.words ++
                (declared.enums.flatMap EnumDecl.words ++
                  (declared.extensions.flatMap ExtendDecl.words ++ "\x7d" :: words))))) := by
        simp [MessageDecl.words_eq]
      rw [same, MessageDecl.unplaced_eq declared]
      refine (reads_expectIdentifier name).bind fun nameToken nameText => ?_
      refine (reads_expectSymbol "\x7b").bind fun _ _ => Loops.reads ?_
      rw [nameText]
      refine loops_items FieldDecl.words
        (fun done message => message.unplaced =
          ⟨declared.name, .first, done.map FieldDecl.unplaced, [], [], [], []⟩)
        fieldWords_ne_nil ?_ ?_ (MessageDecl.unplaced_eq _)
      · intro done field message behind member known
        obtain ⟨grammatical, starts⟩ := fields field member
        refine (reads_fieldStatement grammatical starts).keeps fun next same => ?_
        rw [same, known, List.map_append]
        rfl
      intro message known
      refine loops_items ExtensionRange.words
        (fun done message => message.unplaced =
          ⟨declared.name, .first, declared.fields.map FieldDecl.unplaced, [], [], [], done⟩)
        (fun range => List.cons_ne_nil _ _) ?_ ?_ known
      · intro done range message behind member known
        refine (reads_rangeStatement (ranges range member)).keeps fun next same => ?_
        rw [same, known]
      intro message known
      refine loops_items MessageDecl.words
        (fun done message => message.unplaced =
          ⟨declared.name, .first, declared.fields.map FieldDecl.unplaced,
            done.map MessageDecl.unplaced, [], [], declared.ranges⟩)
        (fun message => message.words_eq ▸ List.cons_ne_nil _ _) ?_ ?_ known
      · intro done inner message behind member known
        refine (reads_nestedStatement (messages inner member) (nested inner member behind)).keeps
          fun next same => ?_
        rw [same, known, List.map_append]
        rfl
      intro message known
      refine loops_items EnumDecl.words
        (fun done message => message.unplaced =
          ⟨declared.name, .first, declared.fields.map FieldDecl.unplaced,
            declared.messages.map MessageDecl.unplaced, done.map EnumDecl.unplaced, [],
            declared.ranges⟩)
        (fun enum => List.cons_ne_nil _ _) ?_ ?_ known
      · intro done inner message behind member known
        refine (reads_enumStatement (enums inner member)).keeps fun next same => ?_
        rw [same, known, List.map_append]
        rfl
      intro message known
      refine loops_items ExtendDecl.words
        (fun done message => message.unplaced =
          ⟨declared.name, .first, declared.fields.map FieldDecl.unplaced,
            declared.messages.map MessageDecl.unplaced, declared.enums.map EnumDecl.unplaced,
            done.map ExtendDecl.unplaced, declared.ranges⟩)
        (fun block => List.cons_ne_nil _ _) ?_ ?_ known
      · intro done block message behind member known
        refine (reads_extendStatement (extensions block member)).keeps fun next same => ?_
        rw [same, known, List.map_append]
        rfl
      intro message known
      exact loops_done (.acceptedWord (reads_pure ⟨message, rfl, known⟩))

theorem reads_message {declared : MessageDecl} (grammatical : declared.Grammatical) :
    Reads message (declared.words.tail ++ words) words (·.unplaced = declared.unplaced) := by
  intro stream shows
  refine reads_messageWithin grammatical ?_ stream shows
  have length := shows.length_following
  rw [List.length_append, List.length_tail] at length
  rw [TokenStream.rounds, length]
  omega

/-! ### Files -/

theorem reads_editionStatement (edition : Edition) :
    Reads editionStatement ("=" :: Quoted.quote edition.name :: ";" :: words) words
      (· = edition) := by
  refine (reads_expectSymbol "=").bind fun _ _ => ?_
  refine (reads_expect (isString_quote edition.name)).bind fun token text => ?_
  have value := stringValue?_quote edition.name
  rw [← text] at value
  cases edition with
  | proto2 =>
      simp only [value, Edition.name, pure_bind]
      exact (reads_expectSymbol ";").bind fun _ _ => reads_pure rfl
  | proto3 =>
      simp only [value, Edition.name, pure_bind]
      exact (reads_expectSymbol ";").bind fun _ _ => reads_pure rfl

theorem reads_packageStatement
    {package : String}
    (names : TokenClass.namesGoOn true package.toList = true) :
    Reads (packageStatement none) (package :: ";" :: words) words (· = package) := by
  refine (reads_expect (isTypeName_of_namesGoOn names)).bind fun token text => ?_
  refine (reads_expectSymbol ";").bind fun _ _ => ?_
  refine reads_pure ?_
  rw [text, dropWhile_of_namesGoOn names, String.ofList_toList]

theorem reads_importStatement (path : String) :
    Reads importStatement (Quoted.quote path :: ";" :: words) words (· = path) := by
  have noModifier (word : String) (noString : TokenClass.isString word = false) :
      (Quoted.quote path == word) = false := by
    refine beq_false_of_ne fun same => ?_
    rw [← same, isString_quote] at noString
    cases noString
  refine Reads.bind (reads_refuse ?_) fun _ _ => ?_
  · rw [noModifier "public" (by decide), noModifier "weak" (by decide)]
    rfl
  · refine (reads_expect (isString_quote path)).bind fun token text => ?_
    rw [text, stringValue?_quote]
    exact (reads_expectSymbol ";").bind fun _ _ => reads_pure rfl

section Statements

variable {file : FileDecl}

theorem reads_fileEdition (edition : Edition) :
    Reads (fileStatement file)
      ("syntax" :: "=" :: Quoted.quote edition.name :: ";" :: words) words fun decision =>
        ∃ next, decision = .again next ∧
          next.unplaced = { file.unplaced with edition := edition } := by
  refine .refused (by decide) (.refusedWord (by decide) (.acceptedWord ?_))
  refine (reads_editionStatement edition).bind ?_
  rintro _ rfl
  exact reads_pure ⟨_, rfl, rfl⟩

theorem reads_filePackage
    {package : String}
    (names : TokenClass.namesGoOn true package.toList = true)
    (unknown : file.package = none) :
    Reads (fileStatement file) ("package" :: package :: ";" :: words) words fun decision =>
      ∃ next, decision = .again next ∧
        next.unplaced = { file.unplaced with package := some package } := by
  refine .refused (by decide)
    (.refusedWord (by decide) (.refusedWord (by decide) (.acceptedWord ?_)))
  rw [unknown]
  refine (reads_packageStatement names).bind ?_
  rintro _ rfl
  exact reads_pure ⟨_, rfl, rfl⟩

theorem reads_fileImport (path : String) :
    Reads (fileStatement file) (importWords path ++ words) words fun decision =>
      ∃ next, decision = .again next ∧
        next.unplaced = { file.unplaced with imports := file.unplaced.imports ++ [path] } := by
  refine .refused (by decide) (.refusedWord (by decide) (.refusedWord (by decide) ?_))
  refine .refusedWord (by decide) (.acceptedWord ?_)
  refine (reads_importStatement path).bind ?_
  rintro _ rfl
  exact reads_pure ⟨_, rfl, rfl⟩

theorem reads_fileMessage {declared : MessageDecl} (grammatical : declared.Grammatical) :
    Reads (fileStatement file) (declared.words ++ words) words fun decision =>
      ∃ next, decision = .again next ∧ next.unplaced =
        { file.unplaced with messages := file.unplaced.messages ++ [declared.unplaced] } := by
  have reads : Reads message (declared.words.tail ++ words) words _ := reads_message grammatical
  rw [MessageDecl.words_eq] at reads ⊢
  refine .refused (by decide) (.refusedWord (by decide) (.refusedWord (by decide) ?_))
  refine .refusedWord (by decide) (.refusedWord (by decide) (.refusedWord (by decide) ?_))
  refine .acceptedWord (reads.bind fun read equal => ?_)
  refine reads_pure ⟨_, rfl, ?_⟩
  simp only [FileDecl.unplaced, List.map_append, List.map_cons, List.map_nil, equal]

theorem reads_fileEnum {declared : EnumDecl} (grammatical : declared.Grammatical) :
    Reads (fileStatement file) (declared.words ++ words) words fun decision =>
      ∃ next, decision = .again next ∧ next.unplaced =
        { file.unplaced with enums := file.unplaced.enums ++ [declared.unplaced] } := by
  have reads : Reads enum (declared.words.tail ++ words) words _ := reads_enum grammatical
  refine .refused (by decide) (.refusedWord (by decide) (.refusedWord (by decide) ?_))
  refine .refusedWord (by decide) (.refusedWord (by decide) (.refusedWord (by decide) ?_))
  refine .refusedWord (by decide) (.acceptedWord (reads.bind fun read equal => ?_))
  refine reads_pure ⟨_, rfl, ?_⟩
  simp only [FileDecl.unplaced, List.map_append, List.map_cons, List.map_nil, equal]

theorem reads_fileExtend {declared : ExtendDecl} (grammatical : declared.Grammatical) :
    Reads (fileStatement file) (declared.words ++ words) words fun decision =>
      ∃ next, decision = .again next ∧ next.unplaced =
        { file.unplaced with extensions := file.unplaced.extensions ++ [declared.unplaced] } := by
  have reads : Reads extendBlock (declared.words.tail ++ words) words _ :=
    reads_extendBlock grammatical
  refine .refused (by decide) (.refusedWord (by decide) (.refusedWord (by decide) ?_))
  refine .refusedWord (by decide) (.refusedWord (by decide) (.refusedWord (by decide) ?_))
  refine .refusedWord (by decide) (.refusedWord (by decide) ?_)
  refine .acceptedWord (reads.bind fun read equal => ?_)
  refine reads_pure ⟨_, rfl, ?_⟩
  simp only [FileDecl.unplaced, List.map_append, List.map_cons, List.map_nil, equal]

end Statements

private theorem loops_package
    {state : FileDecl}
    {package : Option String}
    (names : ∀ name, package = some name → TokenClass.namesGoOn true name.toList = true)
    {outcome : FileDecl → Prop}
    (unknown : state.package = none)
    (goesOn : ∀ next, next.unplaced = { state.unplaced with package := package } →
      Loops fileStatement next words [] outcome) :
    Loops fileStatement state (packageWords package ++ words) [] outcome := by
  cases package with
  | none => exact goesOn state (by rw [FileDecl.unplaced, unknown])
  | some name =>
      refine loops_again ?_ (reads_filePackage (names name rfl) unknown) goesOn
      rw [packageWords, List.length_append]
      exact Nat.lt_add_of_pos_left (Nat.succ_pos 2)

/-- All statements of a file are read, one kind after the other. -/
theorem reads_file {declared : FileDecl} (grammatical : declared.Grammatical) :
    Reads (loop fileStatement .empty) declared.words [] (·.unplaced = declared.unplaced) := by
  refine Loops.reads (loops_again ?_ (reads_fileEdition declared.edition) fun file known => ?_)
  · simp only [FileDecl.words, List.length_cons]
    omega
  refine loops_package grammatical.package (congrArg FileDecl.package known) fun file both => ?_
  rw [known] at both
  refine loops_items importWords
    (fun done file => file.unplaced = ⟨declared.edition, declared.package, done, [], [], []⟩)
    (fun path => List.cons_ne_nil _ _) ?_ ?_ both
  · intro done path file behind _ known
    refine (reads_fileImport path).keeps fun next same => ?_
    rw [same, known]
  intro file known
  refine loops_items MessageDecl.words
    (fun done file => file.unplaced = ⟨declared.edition, declared.package, declared.imports,
      done.map MessageDecl.unplaced, [], []⟩)
    (fun message => message.words_eq ▸ List.cons_ne_nil _ _) ?_ ?_ known
  · intro done message file behind member known
    refine (reads_fileMessage (grammatical.messages message member)).keeps fun next same => ?_
    rw [same, known, List.map_append]
    rfl
  intro file known
  refine loops_items EnumDecl.words
    (fun done file => file.unplaced = ⟨declared.edition, declared.package, declared.imports,
      declared.messages.map MessageDecl.unplaced, done.map EnumDecl.unplaced, []⟩)
    (fun enum => List.cons_ne_nil _ _) ?_ ?_ known
  · intro done enum file behind member known
    refine (reads_fileEnum (grammatical.enums enum member)).keeps fun next same => ?_
    rw [same, known, List.map_append]
    rfl
  intro file known
  rw [← List.append_nil (declared.extensions.flatMap ExtendDecl.words)]
  refine loops_items ExtendDecl.words
    (fun done file => file.unplaced = ⟨declared.edition, declared.package, declared.imports,
      declared.messages.map MessageDecl.unplaced, declared.enums.map EnumDecl.unplaced,
      done.map ExtendDecl.unplaced⟩)
    (fun block => List.cons_ne_nil _ _) ?_ ?_ known
  · intro done block file behind member known
    refine (reads_fileExtend (grammatical.extensions block member)).keeps fun next same => ?_
    rw [same, known, List.map_append]
    rfl
  intro file known
  refine loops_done (reads_end.bind ?_)
  rintro _ rfl
  exact reads_pure ⟨file, rfl, known⟩

end ProtoWire.Proto.Parser
