import ProtoWire.Proofs.Proto.Rereading

/-!
Contract: the canonical text of a parsed file stands for this file. Parsing loses nothing but
positions, comments and spellings, and a word that was read as a name is read as a name again.

Owns:
- that the words of declarations are tokens of their own;
- parsing the canonical text of a file.

Does not own: reading the words of one declaration.
-/

namespace ProtoWire.Proto

/-! ### Words of declarations -/

theorem FieldDecl.Grammatical.isWord {field : FieldDecl} (grammatical : field.Grammatical) :
    ∀ word ∈ field.words, IsWord word := by
  have label : ∀ word ∈ field.label.words, IsWord word := by
    cases field.label with
    | none => exact List.forall_mem_nil _
    | optional => exact List.forall_mem_singleton.mpr (isWord_of_isTypeName (by decide))
    | required => exact List.forall_mem_singleton.mpr (isWord_of_isTypeName (by decide))
    | repeated => exact List.forall_mem_singleton.mpr (isWord_of_isTypeName (by decide))
  have type : ∀ word ∈ field.typeWords, IsWord word := by
    unfold FieldDecl.typeWords
    cases known : field.map with
    | none => exact List.forall_mem_singleton.mpr (isWord_of_isTypeName grammatical.type)
    | some map =>
        obtain ⟨key, value⟩ := grammatical.map map known
        have value : IsWord map.value := isWord_of_isTypeName (value ▸ grammatical.type)
        simp only [List.forall_mem_cons]
        exact ⟨isWord_of_isTypeName (by decide), isWord_of_mem_symbols (by decide),
          isWord_of_isIdentifier key, isWord_of_mem_symbols (by decide), value,
          isWord_of_mem_symbols (by decide), List.forall_mem_nil _⟩
  have packed : ∀ word ∈ packedWords field.packed, IsWord word := by
    cases field.packed with
    | none => exact List.forall_mem_nil _
    | some value =>
        have flag : IsWord (if value then "true" else "false") := by
          cases value with
          | true => exact isWord_of_isTypeName (by decide)
          | false => exact isWord_of_isTypeName (by decide)
        simp only [packedWords, List.forall_mem_cons]
        exact ⟨isWord_of_mem_symbols (by decide), isWord_of_isTypeName (by decide),
          isWord_of_mem_symbols (by decide), flag, isWord_of_mem_symbols (by decide),
          List.forall_mem_nil _⟩
  simp only [FieldDecl.words, FieldDecl.unlabelledWords, List.forall_mem_append,
    List.forall_mem_cons]
  exact ⟨label, type, isWord_of_isIdentifier grammatical.name, isWord_of_mem_symbols (by decide),
    isWord_decimal field.tag, packed, isWord_of_mem_symbols (by decide), List.forall_mem_nil _⟩

theorem EnumDecl.Grammatical.isWord {enum : EnumDecl} (grammatical : enum.Grammatical) :
    ∀ word ∈ enum.words, IsWord word := by
  have values : ∀ word ∈ enum.values.flatMap EnumValueDecl.words, IsWord word := by
    refine List.forall_mem_flatMap.mpr fun value member => ?_
    simp only [EnumValueDecl.words, List.forall_mem_cons]
    exact ⟨isWord_of_isIdentifier (grammatical.values value member),
      isWord_of_mem_symbols (by decide), isWord_toString value.number.toInt,
      isWord_of_mem_symbols (by decide), List.forall_mem_nil _⟩
  simp only [EnumDecl.words, List.forall_mem_append, List.forall_mem_cons]
  exact ⟨isWord_of_isTypeName (by decide), isWord_of_isIdentifier grammatical.name,
    isWord_of_mem_symbols (by decide), values, isWord_of_mem_symbols (by decide),
    List.forall_mem_nil _⟩

theorem ExtendDecl.Grammatical.isWord {block : ExtendDecl} (grammatical : block.Grammatical) :
    ∀ word ∈ block.words, IsWord word := by
  have fields : ∀ word ∈ block.fields.flatMap FieldDecl.words, IsWord word :=
    List.forall_mem_flatMap.mpr fun field member => (grammatical.fields field member).isWord
  simp only [ExtendDecl.words, List.forall_mem_append, List.forall_mem_cons]
  exact ⟨isWord_of_isTypeName (by decide), isWord_of_isTypeName grammatical.name,
    isWord_of_mem_symbols (by decide), fields, isWord_of_mem_symbols (by decide),
    List.forall_mem_nil _⟩

private theorem ExtensionRange.isWord (range : ExtensionRange) :
    ∀ word ∈ range.words, IsWord word := by
  simp only [ExtensionRange.words, List.forall_mem_cons]
  exact ⟨isWord_of_isTypeName (by decide), isWord_decimal range.start,
    isWord_of_isTypeName (by decide), isWord_decimal range.stop, isWord_of_mem_symbols (by decide),
    List.forall_mem_nil _⟩

theorem MessageDecl.Grammatical.isWord {message : MessageDecl} (grammatical : message.Grammatical) :
    ∀ word ∈ message.words, IsWord word := by
  induction grammatical with
  | @intro message name fields ranges messages enums extensions inductionHypothesis =>
      have fieldWords : ∀ word ∈ message.fields.flatMap FieldDecl.words, IsWord word :=
        List.forall_mem_flatMap.mpr fun field member => (fields field member).1.isWord
      have rangeWords : ∀ word ∈ message.ranges.flatMap ExtensionRange.words, IsWord word :=
        List.forall_mem_flatMap.mpr fun range _ => range.isWord
      have messageWords : ∀ word ∈ message.messages.flatMap MessageDecl.words, IsWord word :=
        List.forall_mem_flatMap.mpr inductionHypothesis
      have enumWords : ∀ word ∈ message.enums.flatMap EnumDecl.words, IsWord word :=
        List.forall_mem_flatMap.mpr fun enum member => (enums enum member).isWord
      have extendWords : ∀ word ∈ message.extensions.flatMap ExtendDecl.words, IsWord word :=
        List.forall_mem_flatMap.mpr fun block member => (extensions block member).isWord
      simp only [MessageDecl.words_eq, List.forall_mem_append, List.forall_mem_cons]
      exact ⟨isWord_of_isTypeName (by decide), isWord_of_isIdentifier name,
        isWord_of_mem_symbols (by decide), fieldWords, rangeWords, messageWords, enumWords,
        extendWords, isWord_of_mem_symbols (by decide), List.forall_mem_nil _⟩

theorem FileDecl.Grammatical.isWord {file : FileDecl} (grammatical : file.Grammatical) :
    ∀ word ∈ file.words, IsWord word := by
  have package : ∀ word ∈ packageWords file.package, IsWord word := by
    cases known : file.package with
    | none => exact List.forall_mem_nil _
    | some name =>
        have names := isTypeName_of_namesGoOn (grammatical.package name known)
        simp only [packageWords, List.forall_mem_cons]
        exact ⟨isWord_of_isTypeName (by decide), isWord_of_isTypeName names,
          isWord_of_mem_symbols (by decide), List.forall_mem_nil _⟩
  have imports : ∀ word ∈ file.imports.flatMap importWords, IsWord word := by
    refine List.forall_mem_flatMap.mpr fun path _ => ?_
    simp only [importWords, List.forall_mem_cons]
    exact ⟨isWord_of_isTypeName (by decide), isWord_quote path, isWord_of_mem_symbols (by decide),
      List.forall_mem_nil _⟩
  have messages : ∀ word ∈ file.messages.flatMap MessageDecl.words, IsWord word :=
    List.forall_mem_flatMap.mpr fun message member => (grammatical.messages message member).isWord
  have enums : ∀ word ∈ file.enums.flatMap EnumDecl.words, IsWord word :=
    List.forall_mem_flatMap.mpr fun enum member => (grammatical.enums enum member).isWord
  have extensions : ∀ word ∈ file.extensions.flatMap ExtendDecl.words, IsWord word :=
    List.forall_mem_flatMap.mpr fun block member => (grammatical.extensions block member).isWord
  simp only [FileDecl.words, List.forall_mem_append, List.forall_mem_cons]
  exact ⟨isWord_of_isTypeName (by decide), isWord_of_mem_symbols (by decide),
    isWord_quote file.edition.name, isWord_of_mem_symbols (by decide), package, imports, messages,
    enums, extensions⟩

/-! ### Parsing -/

/-- The canonical text of a file that obeys the rules stands for this file. -/
theorem FileDecl.Grammatical.parse_render {file : FileDecl} (grammatical : file.Grammatical) :
    ∃ again, FileDecl.parse file.render = .ok again ∧ again.unplaced = file.unplaced := by
  obtain ⟨tokens, scanned, texts⟩ := scan_intercalate grammatical.isWord
  cases tokens with
  | nil => exact absurd texts.symm (List.append_ne_nil_of_right_ne_nil _ (List.cons_ne_nil _ _))
  | cons token others =>
      obtain ⟨again, next, ok, -, same⟩ := Parser.reads_file grammatical ⟨token, others⟩ texts
      refine ⟨again, ?_, same⟩
      rw [FileDecl.parse, FileDecl.render, scanned]
      change (Parser.loop Parser.fileStatement .empty ⟨token, others⟩).map Prod.fst = _
      rw [ok]
      rfl

/-- Whatever text a file was parsed from, its canonical text stands for the same file, up to
positions. -/
theorem FileDecl.parse_render_of_parse
    {text : String}
    {file : FileDecl}
    (parsed : FileDecl.parse text = .ok file) :
    ∃ again, FileDecl.parse file.render = .ok again ∧ again.unplaced = file.unplaced := by
  obtain ⟨tokens, -, ok⟩ := Outcome.bind_eq_ok.mp parsed
  exact (FileDecl.grammatical_of_ofTokens ok).parse_render

/-- Keywords serve as names wherever they leave no other reading. -/
def keywordText : String :=
  "import 'it\\'s'; message message \x7b optional message optional = 0x1; " ++
  "oneof oneof \x7b map<bool, .enum> map = 2; \x7d extensions option = 3; " ++
  "enum max \x7b to = -1; \x7d \x7d"

/-- The canonical text of such a file reads its words as names again. -/
theorem FileDecl.parse_render_keywords :
    ∃ file again,
      FileDecl.parse keywordText = .ok file ∧
      file.render =
        "syntax = \"proto2\" ; import \"it's\" ; message message \x7b " ++
        "optional message optional = 1 ; optional map < bool , .enum > map = 2 ; " ++
        "extensions option = 3 ; enum max \x7b to = -1 ; \x7d \x7d" ∧
      FileDecl.parse file.render = .ok again ∧
      again.unplaced = file.unplaced := by
  have text : (FileDecl.parse keywordText).toOption.map FileDecl.render =
      some ("syntax = \"proto2\" ; import \"it's\" ; message message \x7b " ++
        "optional message optional = 1 ; optional map < bool , .enum > map = 2 ; " ++
        "extensions option = 3 ; enum max \x7b to = -1 ; \x7d \x7d") := by
    decide +kernel
  obtain ⟨file, parsed, rendered⟩ := Option.map_eq_some_iff.mp text
  have parsed := Outcome.eq_ok_of_toOption parsed
  obtain ⟨again, reparsed, same⟩ := FileDecl.parse_render_of_parse parsed
  exact ⟨file, again, parsed, rendered, reparsed, same⟩

end ProtoWire.Proto
