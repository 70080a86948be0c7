import ProtoWire.Proofs.Proto.Repetition

/-!
Contract: the words that the grammar passes over. Each of them is read without a trace where it may
stand.

Owns:
- balanced words, statements that are ignored in a body, and options that are ignored;
- the parsers that pass over them.

Does not own: where such words are put into a file.
-/

namespace ProtoWire.Proto

/-! ### Words -/

/-- Words in which every brace that opens a block closes it again, and no other one closes one. -/
inductive IsBalanced : List String → Prop where
  | nil : IsBalanced []
  | word
      {word : String}
      {words : List String}
      (noBrace : word ∉ ["", "\x7b", "\x7d"])
      (later : IsBalanced words) :
      IsBalanced (word :: words)
  | block
      {inner words : List String}
      (inside : IsBalanced inner)
      (later : IsBalanced words) :
      IsBalanced ("\x7b" :: (inner ++ "\x7d" :: words))

/-- Balanced words with no semicolon outside of their blocks. -/
inductive IsStatementBody : List String → Prop where
  | nil : IsStatementBody []
  | word
      {word : String}
      {words : List String}
      (noEnd : word ∉ ["", "\x7b", "\x7d", ";"])
      (later : IsStatementBody words) :
      IsStatementBody (word :: words)
  | block
      {inner words : List String}
      (inside : IsBalanced inner)
      (later : IsStatementBody words) :
      IsStatementBody ("\x7b" :: (inner ++ "\x7d" :: words))

/-- What statements stand in. -/
inductive Body where
  | file
  | message
  | enum
  | oneof
deriving DecidableEq, Repr

/-- A statement that is ignored in a body. No equals sign stands behind its keyword. -/
inductive IsIgnored : Body → List String → Prop where
  | semicolon {body : Body} : IsIgnored body [";"]
  | option
      {body : Body}
      {words : List String}
      (isBody : IsStatementBody words)
      (noValue : words.headD ";" ≠ "=") :
      IsIgnored body ("option" :: (words ++ [";"]))
  | reserved
      {body : Body}
      {words : List String}
      (isIn : body = .message ∨ body = .enum)
      (isBody : IsStatementBody words)
      (noValue : words.headD ";" ≠ "=") :
      IsIgnored body ("reserved" :: (words ++ [";"]))
  | service
      {name : String}
      {words : List String}
      (isName : TokenClass.isIdentifier name = true)
      (isBalanced : IsBalanced words) :
      IsIgnored .file ("service" :: name :: "\x7b" :: (words ++ ["\x7d"]))

/-- Names, and names in parentheses, of which all but the first start with a point. -/
def IsOptionName (words : List String) : Prop :=
  ∃ first behind, words = first ++ behind ∧
    (∃ name, TokenClass.isTypeName name = true ∧ (first = [name] ∨ first = ["(", name, ")"])) ∧
    ∀ part ∈ behind, TokenClass.isTypeName part = true ∧ part.startsWith "." = true

/-- One word that ends nothing, or a block. -/
def IsConstant (words : List String) : Prop :=
  (∃ word, words = [word] ∧ word ∉ ["", "\x7b", "\x7d", ",", ";", "]"]) ∨
    ∃ inner, words = "\x7b" :: (inner ++ ["\x7d"]) ∧ IsBalanced inner

/-- An option with a constant and a name other than `packed`. -/
def IsIgnoredOption (words : List String) : Prop :=
  ∃ name constant, words = name ++ "=" :: constant ∧ IsOptionName name ∧
    String.join name ≠ "packed" ∧ IsConstant constant

namespace Parser

variable {words more : List String}

/-! ### Blocks and statements -/

/-- A word of a block, and how many blocks are still open inside of it. -/
def blockRound (depth : Nat) : Parser (Round Nat Unit) := do
  if ← acceptWord "\x7b" then pure (.again (depth + 1))
  else if ← acceptWord "\x7d" then
    if depth = 0 then pure (.done ()) else pure (.again (depth - 1))
  else if ← atEnd then unexpected
  else
    advance
    pure (.again depth)

theorem skipBlock_eq :
    skipBlock = (do
      expectSymbol "\x7b"
      loop blockRound 0) :=
  rfl

private theorem isEmpty_eq_false {word : String} (nonempty : word ≠ "") : word.isEmpty = false :=
  Bool.eq_false_iff.mpr (mt String.isEmpty_iff.mp nonempty)

/-- Balanced words leave as many blocks open as before. -/
private theorem loops_balanced
    (isBalanced : IsBalanced words)
    {depth : Nat}
    {after : List String}
    {outcome : Unit → Prop}
    (goesOn : Loops blockRound depth more after outcome) :
    Loops blockRound depth (words ++ more) after outcome := by
  induction isBalanced generalizing depth more with
  | nil => exact goesOn
  | @word word words noBrace _ inductionHypothesis =>
      simp only [List.mem_cons, List.not_mem_nil, or_false, not_or] at noBrace
      obtain ⟨nonempty, noOpen, noClose⟩ := noBrace
      refine loops_round (Nat.lt_succ_self _) ?_ (inductionHypothesis goesOn)
      refine .refusedWord noOpen (.refusedWord noClose (.unseen rfl (isEmpty_eq_false nonempty) ?_))
      exact reads_advance.bind fun _ _ => reads_pure rfl
  | @block inner words _ _ insideHypothesis inductionHypothesis =>
      rw [List.cons_append, List.append_assoc, List.cons_append]
      refine loops_round (Nat.lt_succ_self _) (.acceptedWord (reads_pure rfl)) (insideHypothesis ?_)
      refine loops_round (Nat.lt_succ_self _) ?_ (inductionHypothesis goesOn)
      exact .refusedWord (by decide) (.acceptedWord (reads_pure rfl))

theorem reads_skipBlock (isBalanced : IsBalanced words) :
    Reads skipBlock ("\x7b" :: (words ++ "\x7d" :: more)) more fun _ => True := by
  rw [skipBlock_eq]
  refine (reads_expectSymbol _).bind fun _ _ => (loops_balanced isBalanced ?_).reads
  refine loops_done (.refusedWord (by decide) (.acceptedWord ?_))
  exact reads_pure ⟨(), rfl, trivial⟩

/-- A word or a block of a statement, up to its end. -/
def bodyRound (_ : Unit) : Parser (Round Unit Unit) := do
  if ← acceptWord ";" then pure (.done ())
  else if ← sees 0 (· == "\x7b") then
    skipBlock
    pure (.again ())
  else if ← sees 0 fun text => text.isEmpty || text == "\x7d" then unexpected
  else
    advance
    pure (.again ())

theorem skipStatement_eq : skipStatement = loop bodyRound () :=
  rfl

private theorem loops_statementBody (isBody : IsStatementBody words) :
    Loops bodyRound () (words ++ ";" :: more) more fun _ => True := by
  induction isBody with
  | nil => exact loops_done (.acceptedWord (reads_pure ⟨(), rfl, trivial⟩))
  | @word word words noEnd _ inductionHypothesis =>
      simp only [List.mem_cons, List.not_mem_nil, or_false, not_or] at noEnd
      obtain ⟨nonempty, noOpen, noClose, noSemicolon⟩ := noEnd
      have solid : (word.isEmpty || word == "\x7d") = false := by
        rw [isEmpty_eq_false nonempty, beq_false_of_ne noClose]
        rfl
      refine loops_round (Nat.lt_succ_self _) ?_ inductionHypothesis
      refine .refusedWord noSemicolon (.unseen rfl (beq_false_of_ne noOpen) (.unseen rfl solid ?_))
      exact reads_advance.bind fun _ _ => reads_pure rfl
  | @block inner words inside _ inductionHypothesis =>
      rw [List.cons_append, List.append_assoc, List.cons_append]
      refine loops_round ?_ (.refusedWord (by decide) ?_) inductionHypothesis
      · simp only [List.length_append, List.length_cons]
        omega
      · refine (reads_sees rfl).bind ?_
        rintro _ rfl
        exact (reads_skipBlock inside).bind fun _ _ => reads_pure rfl

theorem reads_skipStatement (isBody : IsStatementBody words) :
    Reads skipStatement (words ++ ";" :: more) more fun _ => True := by
  rw [skipStatement_eq]
  exact (loops_statementBody isBody).reads

/-! ### Options -/

theorem reads_skipConstant (isConstant : IsConstant words) :
    Reads skipConstant (words ++ more) more fun _ => True := by
  unfold skipConstant
  rcases isConstant with ⟨word, rfl, noEnd⟩ | ⟨inner, rfl, isBalanced⟩
  · have noEnd : word ≠ "" ∧ word ≠ "\x7b" ∧ word ≠ "\x7d" ∧ word ≠ "," ∧ word ≠ ";" ∧ word ≠ "]" := by
      simpa only [List.mem_cons, List.not_mem_nil, or_false, not_or] using noEnd
    obtain ⟨nonempty, noOpen, noClose, noComma, noSemicolon, noBracket⟩ := noEnd
    have solid : (word.isEmpty || [",", ";", "]", "\x7d"].contains word) = false := by
      simp [isEmpty_eq_false nonempty, noClose, noComma, noSemicolon, noBracket]
    refine .unseen rfl (beq_false_of_ne noOpen) (reads_current.bind fun token text => ?_)
    rw [text, solid]
    exact reads_advance
  · rw [List.cons_append, List.append_assoc, List.singleton_append]
    refine (reads_sees rfl).bind ?_
    rintro _ rfl
    exact reads_skipBlock isBalanced

/-- A part of the name of an option behind other parts. -/
def nameRound (name : String) : Parser (Round String String) := do
  let part ←
    if ← acceptWord "(" then do
      let token ← expect TokenClass.isTypeName "option name"
      expectSymbol ")"
      pure ("(" ++ token.text ++ ")")
    else do
      let token ← expect TokenClass.isTypeName "option name"
      pure token.text
  if ← sees 0 fun text => text.startsWith "." then pure (.again (name ++ part))
  else pure (.done (name ++ part))

theorem optionName_eq : optionName = loop nameRound "" :=
  rfl

/-- A part of a name is put behind the others, and the name goes on if a point stands behind. -/
private theorem reads_nameRound
    {part : List String}
    {text name next : String}
    (isName : TokenClass.isTypeName text = true)
    (form : part = [text] ∨ part = ["(", text, ")"]) :
    Reads (nameRound name) (part ++ next :: more) (next :: more)
      (· = if next.startsWith "." then .again (part.foldl (· ++ ·) name)
        else .done (part.foldl (· ++ ·) name)) := by
  have goesOn (whole : String) (same : whole = part.foldl (· ++ ·) name) :
      Reads (sees 0 (fun text => text.startsWith ".") >>= fun points =>
          if points then pure (.again whole) else pure (.done whole))
        (next :: more) (next :: more) (· = if next.startsWith "." then
          (.again (part.foldl (· ++ ·) name) : Round String String)
          else .done (part.foldl (· ++ ·) name)) := by
    refine (reads_sees rfl).bind ?_
    rintro _ rfl
    rw [same]
    split <;> exact reads_pure rfl
  rcases form with rfl | rfl
  · have noParenthesis : text ≠ "(" := by
      rintro rfl
      cases isName
    refine .refusedWord noParenthesis ?_
    refine (reads_expect isName).bind fun token tokenText => ?_
    rw [pure_bind, tokenText]
    exact goesOn _ rfl
  · refine .acceptedWord ?_
    refine (reads_expect isName).bind fun token tokenText => ?_
    refine (reads_expectSymbol ")").bind fun _ _ => ?_
    rw [pure_bind, tokenText]
    exact goesOn _ (by simp only [List.foldl_cons, List.foldl_nil, String.append_assoc])

private theorem loops_optionName
    {first behind : List String}
    {text name : String}
    (isName : TokenClass.isTypeName text = true)
    (form : first = [text] ∨ first = ["(", text, ")"])
    (pointed : ∀ part ∈ behind, TokenClass.isTypeName part = true ∧ part.startsWith "." = true) :
    Loops nameRound name (first ++ (behind ++ "=" :: more)) ("=" :: more)
      (· = (first ++ behind).foldl (· ++ ·) name) := by
  induction behind generalizing first text name with
  | nil =>
      have noPoint : "=".startsWith "." = false := by decide +kernel
      rw [List.append_nil]
      refine loops_done fun stream shows => ?_
      obtain ⟨_, next, ok, nextShows, rfl⟩ := reads_nameRound isName form stream shows
      rw [noPoint] at ok
      exact ⟨_, next, ok, nextShows, _, rfl, rfl⟩
  | cons part parts inductionHypothesis =>
      obtain ⟨partName, point⟩ := pointed part List.mem_cons_self
      have later := @inductionHypothesis [part] part (first.foldl (· ++ ·) name) partName (.inl rfl)
        fun other member => pointed other (List.mem_cons_of_mem _ member)
      have shorter : ([part] ++ (parts ++ "=" :: more)).length <
          (first ++ (part :: parts ++ "=" :: more)).length := by
        rcases form with rfl | rfl <;> simp
      rw [List.foldl_append]
      refine loops_round shorter (fun stream shows => ?_) later
      obtain ⟨_, next, ok, nextShows, rfl⟩ := reads_nameRound isName form stream shows
      rw [point] at ok
      exact ⟨_, next, ok, nextShows, rfl⟩

theorem reads_ignoredName (isName : IsOptionName words) :
    Reads optionName (words ++ "=" :: more) ("=" :: more) (· = String.join words) := by
  obtain ⟨first, behind, rfl, ⟨text, typeName, form⟩, pointed⟩ := isName
  rw [optionName_eq, List.append_assoc]
  exact (loops_optionName typeName form pointed).reads

/-- An ignored option keeps what is known. -/
theorem reads_fieldOption {packed : Option Bool} (isOption : IsIgnoredOption words) :
    Reads (fieldOption packed) (words ++ more) more (· = packed) := by
  obtain ⟨name, constant, rfl, isName, noPacked, isConstant⟩ := isOption
  rw [List.append_assoc, List.cons_append]
  unfold fieldOption
  refine (reads_ignoredName isName).bind ?_
  rintro _ rfl
  refine (reads_expectSymbol "=").bind fun _ _ => ?_
  rw [if_neg noPacked]
  exact (reads_skipConstant isConstant).bind fun _ _ => reads_pure rfl

/-! ### Statements -/

section Keywords

variable
  {α : Type}
  {yes no : Parser α}
  {after : List String}
  {outcome : α → Prop}
  {test : String → Bool}
  {first keyword : String}

private theorem Reads.otherKeyword
    (different : first ≠ keyword)
    (reads : Reads no (first :: words) after outcome) :
    Reads (do if ← acceptWordBefore keyword test then yes else no) (first :: words) after
      outcome := by
  have head : (first :: words).headD "" ≠ keyword := different
  exact (decides_otherWord head).reads reads

private theorem Reads.otherOneof
    (different : first ≠ "oneof")
    (reads : Reads no (first :: words) after outcome) :
    Reads (do if ← acceptOneof then yes else no) (first :: words) after outcome := by
  have head : (first :: words).headD "" ≠ "oneof" := different
  exact (decides_otherOneof head).reads reads

/-- A statement that is passed over has no equals sign behind its keyword. -/
private theorem Reads.passedOver
    {value : α}
    (isBody : IsStatementBody words)
    (noValue : words.headD ";" ≠ "=")
    (holds : outcome value) :
    Reads
      (do
        if ← acceptWordBefore keyword (· != "=") then
          skipStatement
          pure value
        else no)
      (keyword :: (words ++ [";"]) ++ more) more outcome := by
  have passes : ((words ++ ";" :: more).headD "" != "=") = true := by
    cases words with
    | nil => rfl
    | cons word others => exact bne_iff_ne.mpr noValue
  rw [List.cons_append, List.append_assoc, List.singleton_append]
  refine Decides.reads (decides_keyword passes) ?_
  exact (reads_skipStatement isBody).bind fun _ _ => reads_pure holds

end Keywords

theorem reads_ignoredFileStatement {file : FileDecl} (isIgnored : IsIgnored .file words) :
    Reads (fileStatement file) (words ++ more) more (· = .again file) := by
  unfold fileStatement
  cases isIgnored with
  | semicolon => exact .refused (by decide) (.acceptedWord (reads_pure rfl))
  | @option _ words isBody _ =>
      rw [List.cons_append, List.append_assoc, List.singleton_append]
      refine .refused (by decide) (.refusedWord (by decide) (.refusedWord (by decide) ?_))
      refine .refusedWord (by decide) (.refusedWord (by decide) (.acceptedWord ?_))
      exact (reads_skipStatement isBody).bind fun _ _ => reads_pure rfl
  | reserved isIn => rcases isIn with isMessage | isEnum <;> contradiction
  | @service name words isName isBalanced =>
      simp only [List.cons_append, List.append_assoc, List.nil_append]
      refine .refused (by decide) (.refusedWord (by decide) (.refusedWord (by decide) ?_))
      refine .refusedWord (by decide) (.refusedWord (by decide) (.refusedWord (by decide) ?_))
      refine .refusedWord (by decide) (.refusedWord (by decide) (.refusedWord (by decide) ?_))
      refine .acceptedWord ((reads_expectIdentifier isName).bind fun _ _ => ?_)
      exact (reads_skipBlock isBalanced).bind fun _ _ => reads_pure rfl

theorem reads_ignoredMessageStatement
    {nested : Parser MessageDecl}
    {message : MessageDecl}
    (isIgnored : IsIgnored .message words) :
    Reads (messageStatement nested message) (words ++ more) more (· = .again message) := by
  unfold messageStatement
  cases isIgnored with
  | semicolon => exact .refusedWord (by decide) (.acceptedWord (reads_pure rfl))
  | option isBody noValue =>
      refine .refusedWord (by decide) (.refusedWord (by decide) (.unseen rfl (by decide) ?_))
      refine .otherKeyword (by decide) (.otherKeyword (by decide) (.otherKeyword (by decide) ?_))
      refine .otherOneof (by decide) (.otherKeyword (by decide) (.otherKeyword (by decide) ?_))
      exact .passedOver isBody noValue rfl
  | reserved _ isBody noValue =>
      refine .refusedWord (by decide) (.refusedWord (by decide) (.unseen rfl (by decide) ?_))
      refine .otherKeyword (by decide) (.otherKeyword (by decide) (.otherKeyword (by decide) ?_))
      refine .otherOneof (by decide) (.otherKeyword (by decide) ?_)
      exact .passedOver isBody noValue rfl

theorem reads_ignoredEnumStatement
    {values : List EnumValueDecl}
    (isIgnored : IsIgnored .enum words) :
    Reads (enumStatement values) (words ++ more) more (· = .again values) := by
  unfold enumStatement
  cases isIgnored with
  | semicolon => exact .refusedWord (by decide) (.acceptedWord (reads_pure rfl))
  | option isBody noValue =>
      refine .refusedWord (by decide) (.refusedWord (by decide) ?_)
      exact .passedOver isBody noValue rfl
  | reserved _ isBody noValue =>
      refine .refusedWord (by decide) (.refusedWord (by decide) (.otherKeyword (by decide) ?_))
      exact .passedOver isBody noValue rfl

theorem reads_ignoredOneofStatement
    {fields : List FieldDecl}
    (isIgnored : IsIgnored .oneof words) :
    Reads (oneofStatement fields) (words ++ more) more (· = .again fields) := by
  unfold oneofStatement
  cases isIgnored with
  | semicolon => exact .refusedWord (by decide) (.acceptedWord (reads_pure rfl))
  | option isBody noValue =>
      refine .refusedWord (by decide) (.refusedWord (by decide) ?_)
      exact .passedOver isBody noValue rfl
  | reserved isIn => rcases isIn with isMessage | isEnum <;> contradiction

end Parser

end ProtoWire.Proto
