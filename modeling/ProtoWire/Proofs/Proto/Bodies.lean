import ProtoWire.Proofs.Proto.Grammatical
import ProtoWire.Proofs.Proto.Ignored
import ProtoWire.Proofs.Proto.Insertion
import ProtoWire.Proofs.Proto.Rereading

/-!
Contract: words that are put in inside of a body or of the options of a field. The statement around
them is read as before.

Owns:
- the words in front of a body and in front of the options of a field;
- bodies, fields and values that carry what is put in;
- the statements of files, messages, oneofs, enums and extend blocks around them.

Does not own: the words that are put in, or the places for them.
-/

namespace ProtoWire.Proto

namespace Parser

variable {stream after : TokenStream} {words others : List String}

/-! ### Heads of bodies and of fields -/

/-- A name and the brace that opens the body behind it. -/
def bodyHead (test : String → Bool) (what : String) : Parser Token := do
  let name ← expect test what
  expectSymbol "\x7b"
  pure name

/-- A field with its label, up to its options. -/
def labelledHead : Parser (Option Bool → FieldDecl) := do
  fieldHead (← fieldLabel)

theorem messageWithin_succ (levels : Nat) :
    messageWithin (levels + 1) = (do
      let name ← bodyHead TokenClass.isIdentifier "identifier"
      loop (messageStatement (messageWithin levels))
        ⟨name.text, name.position, [], [], [], [], []⟩) := by
  simp only [messageWithin, bodyHead, expectIdentifier, bind_assoc, pure_bind]

theorem enum_eq_bodyHead :
    enum = (do
      let name ← bodyHead TokenClass.isIdentifier "identifier"
      let values ← loop enumStatement []
      pure ⟨name.text, name.position, values⟩) := by
  simp only [enum_eq, bodyHead, expectIdentifier, bind_assoc, pure_bind]

theorem oneof_eq_bodyHead :
    oneof = (do
      let _ ← bodyHead TokenClass.isIdentifier "identifier"
      loop oneofStatement []) := by
  simp only [oneof_eq, bodyHead, expectIdentifier, bind_assoc, pure_bind]

theorem extendBlock_eq_bodyHead :
    extendBlock = (do
      let name ← bodyHead TokenClass.isTypeName "message name"
      let fields ← loop extendStatement []
      pure ⟨name.text, name.position, fields⟩) := by
  simp only [extendBlock_eq, bodyHead, bind_assoc, pure_bind]

section Heads

variable {test : String → Bool} {what : String}

theorem words_of_bodyHead
    {name : Token}
    (solid : test "" = false)
    (shows : stream.Shows words)
    (ok : bodyHead test what stream = .ok (name, after)) :
    ∃ rest, words = name.text :: "\x7b" :: rest ∧ test name.text = true ∧ after.Shows rest := by
  obtain ⟨token, next, nameOk, ok⟩ := bind_eq_ok ok
  obtain ⟨_, last, symbolOk, ok⟩ := bind_eq_ok ok
  obtain ⟨rfl, rfl⟩ := Prod.mk.inj (Except.ok.inj ok)
  obtain ⟨behind, rfl, isName, nextShows⟩ := words_of_expect solid shows nameOk
  obtain ⟨rest, rfl, lastShows⟩ := words_of_expectSymbol rfl nextShows symbolOk
  exact ⟨rest, rfl, isName, lastShows⟩

theorem reads_bodyHead {name : String} (isName : test name = true) :
    Reads (bodyHead test what) ([name, "\x7b"] ++ words) words fun token => token.text = name := by
  refine (reads_expect isName).bind fun token text => ?_
  exact (reads_expectSymbol "\x7b").bind fun _ _ => reads_pure text

end Heads

/-- A field in front of its options starts with a name. If it is no map, the name of the field and
an equals sign are behind its type. -/
theorem words_of_fieldHead
    {label : FieldLabel}
    {declare : Option Bool → FieldDecl}
    (shows : stream.Shows words)
    (ok : fieldHead label stream = .ok (declare, after)) :
    TokenClass.isTypeName (words.headD "") = true ∧
      (words.headD "" ≠ "map" →
        TokenClass.isIdentifier (words[1]?.getD "") = true ∧ words[2]?.getD "" = "=") := by
  by_cases isMap : words.headD "" = "map"
  · exact ⟨by rw [isMap]; decide, fun noMap => absurd isMap noMap⟩
  · obtain ⟨⟨type, map⟩, next, typeOk, ok⟩ := bind_eq_ok ok
    obtain ⟨_, same, decided, sameShows, rfl⟩ := decides_otherWord isMap words rfl stream shows
    unfold fieldType at typeOk
    rw [bind_ok decided] at typeOk
    obtain ⟨typeToken, behind, expectOk, typeOk⟩ := bind_eq_ok typeOk
    obtain ⟨-, rfl⟩ := Prod.mk.inj (Except.ok.inj typeOk)
    obtain ⟨typeRest, rfl, isType, behindShows⟩ := words_of_expect rfl sameShows expectOk
    obtain ⟨name, last, nameOk, ok⟩ := bind_eq_ok ok
    obtain ⟨nameRest, rfl, isName, lastShows⟩ := words_of_expect rfl behindShows nameOk
    obtain ⟨_, _, symbolOk, ok⟩ := bind_eq_ok ok
    obtain ⟨rest, rfl, -⟩ := words_of_expectSymbol rfl lastShows symbolOk
    exact ⟨isType, fun _ => ⟨isName, rfl⟩⟩

theorem words_of_enumHead
    {value : EnumValueDecl}
    (shows : stream.Shows words)
    (ok : enumHead stream = .ok (value, after)) :
    TokenClass.isIdentifier (words.headD "") = true ∧ words[1]?.getD "" = "=" := by
  obtain ⟨name, next, nameOk, ok⟩ := bind_eq_ok ok
  obtain ⟨behind, rfl, isName, nextShows⟩ := words_of_expect rfl shows nameOk
  obtain ⟨_, _, symbolOk, _⟩ := bind_eq_ok ok
  obtain ⟨rest, rfl, -⟩ := words_of_expectSymbol rfl nextShows symbolOk
  exact ⟨isName, rfl⟩

/-- Without a label, nothing is taken off the front. -/
theorem fieldLabel_eq (noLabel : stream.current.text ∉ labelKeywords) :
    fieldLabel stream = .ok (.none, stream) := by
  have refuses {keyword : String} (member : keyword ∈ labelKeywords) :
      acceptWord keyword stream = .ok (false, stream) := by
    have different : (stream.current.text == keyword) = false :=
      beq_false_of_ne fun same => noLabel (same ▸ member)
    rw [acceptWord, accept, different]
    rfl
  unfold fieldLabel
  rw [bind_ok (refuses (by decide))]
  change (acceptWord "required" >>= _) stream = _
  rw [bind_ok (refuses (by decide))]
  change (acceptWord "repeated" >>= _) stream = _
  rw [bind_ok (refuses (by decide))]
  rfl

theorem words_of_labelledHead
    {declare : Option Bool → FieldDecl}
    (shows : stream.Shows words)
    (ok : labelledHead stream = .ok (declare, after)) :
    TokenClass.isTypeName (words.headD "") = true ∧
      (words.headD "" ∉ "map" :: labelKeywords →
        TokenClass.isIdentifier (words[1]?.getD "") = true ∧ words[2]?.getD "" = "=") := by
  by_cases isLabel : words.headD "" ∈ labelKeywords
  · refine ⟨?_, fun noLabel => absurd (List.mem_cons_of_mem _ isLabel) noLabel⟩
    revert isLabel
    generalize words.headD "" = word
    revert word
    decide
  · rw [← shows.current_eq] at isLabel
    unfold labelledHead at ok
    rw [bind_ok (fieldLabel_eq isLabel)] at ok
    obtain ⟨isType, noMap⟩ := words_of_fieldHead shows ok
    exact ⟨isType, fun other => noMap fun same => other (same ▸ List.mem_cons_self)⟩

/-! ### Bodies -/

section Bodies

variable {name : String} {rest more : List String} {test : String → Bool} {what : String}

/-- Words that are put in behind the brace of a body. -/
theorem carries_bodyHead
    {α : Type}
    {same : α → α → Prop}
    {goOn goOnAgain : Token → Parser α}
    (isName : test name = true)
    (carries : ∀ token other : Token, token.text = name → other.text = name →
      Carries same (goOn token) (goOnAgain other) rest more) :
    Carries same (bodyHead test what >>= goOn) (bodyHead test what >>= goOnAgain)
      (name :: "\x7b" :: rest) (name :: "\x7b" :: more) :=
  Carries.behind (reads_bodyHead isName) (reads_bodyHead isName) carries

theorem carries_enum
    (isName : TokenClass.isIdentifier name = true)
    (longer : rest.length < more.length)
    (carries : LoopCarries (List.map EnumValueDecl.unplaced)
      (SameUpTo (List.map EnumValueDecl.unplaced)) enumStatement enumStatement [] rest more) :
    Carries (SameUpTo EnumDecl.unplaced) enum enum (name :: "\x7b" :: rest)
      (name :: "\x7b" :: more) := by
  rw [enum_eq_bodyHead]
  refine carries_bodyHead isName fun token other text otherText => ?_
  refine (carries.loop longer rfl rfl).bind fun values valuesAgain _ _ alike => ?_
  obtain alike : values.map EnumValueDecl.unplaced = valuesAgain.map EnumValueDecl.unplaced := alike
  have same : SameUpTo EnumDecl.unplaced ⟨token.text, token.position, values⟩
      ⟨other.text, other.position, valuesAgain⟩ := by
    rw [SameUpTo, EnumDecl.unplaced, EnumDecl.unplaced, text, otherText, alike]
  exact carries_pure same

theorem carries_extendBlock
    (isName : TokenClass.isTypeName name = true)
    (longer : rest.length < more.length)
    (carries : LoopCarries (List.map FieldDecl.unplaced) (SameUpTo (List.map FieldDecl.unplaced))
      extendStatement extendStatement [] rest more) :
    Carries (SameUpTo ExtendDecl.unplaced) extendBlock extendBlock (name :: "\x7b" :: rest)
      (name :: "\x7b" :: more) := by
  rw [extendBlock_eq_bodyHead]
  refine carries_bodyHead isName fun token other text otherText => ?_
  refine (carries.loop longer rfl rfl).bind fun fields fieldsAgain _ _ alike => ?_
  obtain alike : fields.map FieldDecl.unplaced = fieldsAgain.map FieldDecl.unplaced := alike
  have same : SameUpTo ExtendDecl.unplaced ⟨token.text, token.position, fields⟩
      ⟨other.text, other.position, fieldsAgain⟩ := by
    rw [SameUpTo, ExtendDecl.unplaced, ExtendDecl.unplaced, text, otherText, alike]
  exact carries_pure same

theorem carries_oneof
    (isName : TokenClass.isIdentifier name = true)
    (longer : rest.length < more.length)
    (carries : LoopCarries (List.map FieldDecl.unplaced) (SameUpTo (List.map FieldDecl.unplaced))
      oneofStatement oneofStatement [] rest more) :
    Carries (SameUpTo (List.map FieldDecl.unplaced)) oneof oneof (name :: "\x7b" :: rest)
      (name :: "\x7b" :: more) := by
  rw [oneof_eq_bodyHead]
  exact carries_bodyHead isName fun _ _ _ _ => carries.loop longer rfl rfl

/-- A statement of a message, with a bound on the levels that is no less than the number of words. -/
theorem repeats_messageRound
    {levels deeper : Nat}
    {message other : MessageDecl}
    (enough : words.length ≤ deeper)
    (alike : SameUpTo MessageDecl.unplaced message other) :
    Repeats (Round.Alike (SameUpTo MessageDecl.unplaced) (SameUpTo MessageDecl.unplaced)) 0 1
      (messageStatement (messageWithin levels) message)
      (messageStatement (messageWithin deeper) other) words :=
  repeats_messageStatement
    (fun _ shorter => repeats_messageWithin (Nat.lt_of_lt_of_le shorter enough)) alike

/-- The body of a message carries what is put in, however deep messages may nest beyond the number
of words. -/
def MessageCarries (message : MessageDecl) (words others : List String) : Prop :=
  ∀ levels more, words.length < levels → others.length < more →
    LoopCarries MessageDecl.unplaced (SameUpTo MessageDecl.unplaced)
      (messageStatement (messageWithin levels)) (messageStatement (messageWithin more)) message words
      others

theorem MessageCarries.inside
    {message : MessageDecl}
    (longer : words.length ≤ others.length)
    (carries : ∀ levels deeper first second, words.length < levels → others.length < deeper →
      SameUpTo MessageDecl.unplaced first second →
      Carries (Round.Alike (SameUpTo MessageDecl.unplaced) (SameUpTo MessageDecl.unplaced))
        (messageStatement (messageWithin levels) first)
        (messageStatement (messageWithin deeper) second) words others) :
    MessageCarries message words others :=
  fun levels deeper enough enoughAgain => LoopCarries.inside
    (fun first second alike => carries levels deeper first second enough enoughAgain alike)
    (fun _ _ _ short alike => repeats_messageRound (by omega) alike)

theorem carries_messageWithin
    {position : Position}
    {levels deeper : Nat}
    (isName : TokenClass.isIdentifier name = true)
    (longer : rest.length < more.length)
    (carries : MessageCarries ⟨name, position, [], [], [], [], []⟩ rest more)
    (enough : rest.length + 2 < levels)
    (enoughAgain : more.length + 2 < deeper) :
    Carries (SameUpTo MessageDecl.unplaced) (messageWithin levels) (messageWithin deeper)
      (name :: "\x7b" :: rest) (name :: "\x7b" :: more) := by
  obtain ⟨levels, rfl⟩ := Nat.exists_eq_add_one.mpr (Nat.zero_lt_of_lt enough)
  obtain ⟨deeper, rfl⟩ := Nat.exists_eq_add_one.mpr (Nat.zero_lt_of_lt enoughAgain)
  rw [messageWithin_succ, messageWithin_succ]
  refine carries_bodyHead isName fun token other text otherText => ?_
  refine (carries levels deeper (by omega) (by omega)).loop longer ?_ ?_
  · exact MessageDecl.sameUpTo_iff.mpr ⟨text.symm, rfl, rfl, rfl, rfl, rfl⟩
  · exact MessageDecl.sameUpTo_iff.mpr ⟨otherText.symm, rfl, rfl, rfl, rfl, rfl⟩

theorem carries_message
    {position : Position}
    (isName : TokenClass.isIdentifier name = true)
    (longer : rest.length < more.length)
    (carries : MessageCarries ⟨name, position, [], [], [], [], []⟩ rest more) :
    Carries (SameUpTo MessageDecl.unplaced) Parser.message Parser.message (name :: "\x7b" :: rest)
      (name :: "\x7b" :: more) := by
  refine carries_rounds ?_ fun levels deeper enough enoughAgain _ => ?_
  · simp only [List.length_cons]
    omega
  · exact carries_messageWithin isName longer carries enough enoughAgain

end Bodies

/-! ### Options, fields and values -/

theorem repeats_optionRound_sameUpTo
    {packed other : Option Bool}
    (alike : SameUpTo id packed other) :
    Repeats (Round.Alike (SameUpTo id) (· = ·)) 0 4 (optionRound packed) (optionRound other) words := by
  obtain rfl : packed = other := alike
  exact repeats_optionRound

theorem carries_fieldOptions
    (longer : words.length < others.length)
    (carries : LoopCarries id (· = ·) optionRound optionRound none words others) :
    Carries (· = ·) fieldOptions fieldOptions ("[" :: words) ("[" :: others) := by
  rw [fieldOptions_eq]
  exact .acceptedWord (carries.loop longer rfl rfl)

/-- What is behind an option in brackets. -/
def optionsBehind (count : Nat) (packed : Option Bool) : Parser (Option Bool) := do
  match ← optionEnd packed with
  | .again next => loopWithin optionRound count next
  | .done result => pure result

theorem loopWithin_optionRound (count : Nat) (packed : Option Bool) :
    loopWithin optionRound (count + 1) packed = (do
      let packed ← fieldOption packed
      optionsBehind count packed) := by
  rw [loopWithin, optionRound, bind_assoc]
  refine congrArg (fieldOption packed >>= ·) (funext fun known => ?_)
  refine congrArg (optionEnd known >>= ·) (funext fun round => ?_)
  cases round <;> rfl

theorem repeats_optionsBehind {count more : Nat} {packed : Option Bool} (fewer : count ≤ more) :
    Repeats (· = ·) 0 1 (optionsBehind count packed) (optionsBehind more packed) words := by
  unfold optionsBehind
  refine repeats_optionEnd.bind 0 ?_ (by decide)
  rintro _ _ rest - (⟨alike⟩ | ⟨rfl⟩)
  · have rounds (known other : Option Bool) (left : List String) (_ : left.length ≤ rest.length)
        (alike : SameUpTo id known other) :=
      @repeats_optionRound_sameUpTo left known other alike
    exact (repeats_loopWithin rounds fewer (Nat.le_refl _) alike).weaken (by decide)
  · exact repeats_pure rfl

section Fields

variable {front rest more : List String}

/-- A group is refused by its first word and the fifth one. -/
theorem refuseGroup_eq {stream : TokenStream} (shows : stream.Shows words) :
    refuseGroup stream =
      if words[0]?.getD "" == "group" && words[4]?.getD "" == "\x7b" then
        .error ⟨.group, stream.current.position⟩
      else .ok ((), stream) := by
  rw [← shows.ahead_eq, ← shows.ahead_eq]
  change (if (stream.ahead 0).text == "group" && (stream.ahead 4).text == "\x7b" then
    (current >>= fun token => failAt token .group) else pure ()) stream = _
  split <;> rfl

theorem reads_refuseGroup
    (noGroup : (words[0]?.getD "" == "group" && words[4]?.getD "" == "\x7b") = false) :
    Reads refuseGroup words words fun _ => True := by
  intro stream shows
  refine ⟨(), stream, ?_, shows, trivial⟩
  rw [refuseGroup_eq shows, noGroup]
  rfl

/-- The options of a field carry what is put in. The field is no group, as its number is not
followed by a block. -/
theorem carries_unlabelledField
    {label : FieldLabel}
    {declare : Option Bool → FieldDecl}
    (least : 4 ≤ front.length)
    (opens : more.headD "" = "[")
    (reads : Reads (fieldHead label) (front ++ rest) rest fun found =>
      ∀ packed, (declare packed).unplaced = (found packed).unplaced)
    (readsAgain : Reads (fieldHead label) (front ++ more) more fun found =>
      ∀ packed, (declare packed).unplaced = (found packed).unplaced)
    (carries : Carries (· = ·) fieldOptions fieldOptions rest more) :
    Carries (SameUpTo FieldDecl.unplaced) (unlabelledField label) (unlabelledField label)
      (front ++ rest) (front ++ more) := by
  rw [unlabelledField_eq]
  cases group : (front ++ rest)[0]?.getD "" == "group" && (front ++ rest)[4]?.getD "" == "\x7b" with
  | true =>
      refine carries_error fun stream shows => ⟨⟨.group, stream.current.position⟩, ?_⟩
      change (refuseGroup stream >>= _) = _
      rw [refuseGroup_eq shows, group]
      rfl
  | false =>
      -- The fifth word is one of the front, or the bracket that is put in behind it.
      have noGroup : ((front ++ more)[0]?.getD "" == "group" &&
          (front ++ more)[4]?.getD "" == "\x7b") = false := by
        rw [List.getElem?_append_left (by omega)] at group ⊢
        by_cases inside : 4 < front.length
        · rw [List.getElem?_append_left inside] at group ⊢
          exact group
        · have number : front.length = 4 := by omega
          have fifth : (front ++ more)[4]?.getD "" = "[" := by
            rw [List.getElem?_append_right (Nat.le_of_eq number), number, Nat.sub_self, ← List.head?_eq_getElem?,
              ← List.headD_eq_head?_getD, opens]
          rw [fifth]
          exact Bool.and_false _
      refine (Carries.behind (reads_refuseGroup group) (reads_refuseGroup noGroup) fun _ _ _ _ => ?_ :
        Carries _ _ _ ([] ++ (front ++ rest)) ([] ++ (front ++ more)))
      refine Carries.behind reads readsAgain fun found foundAgain alike alikeAgain => ?_
      refine carries.bind ?_
      rintro packed _ left - rfl
      refine Repeats.carries ((repeats_expectSymbol rfl).bind 0 (fun _ _ _ _ _ => ?_)
        (by decide : 0 ≤ 0 + 0 ∧ 0 ≤ 1 + 0))
      exact repeats_pure ((alike packed).symm.trans (alikeAgain packed))

/-- What a run of the head of a field shows of the words. Whatever stands behind, the head is read
again and leads to the options. -/
theorem exists_of_fieldHead
    {label : FieldLabel}
    {declare : Option Bool → FieldDecl}
    (shows : stream.Shows words)
    (ok : fieldHead label stream = .ok (declare, after)) :
    ∃ front rest, words = front ++ rest ∧ after.Shows rest ∧ 4 ≤ front.length ∧
      ∀ more, rest.length < more.length → more.headD "" = "[" →
        Carries (· = ·) fieldOptions fieldOptions rest more →
        Carries (SameUpTo FieldDecl.unplaced) (unlabelledField label) (unlabelledField label) words
          (front ++ more) := by
  obtain ⟨front, rest, rfl, afterShows, least, reads⟩ :=
    repeats_fieldHead stream declare after shows ok
  refine ⟨front, rest, rfl, afterShows, least, fun more longer opens carries => ?_⟩
  exact carries_unlabelledField least opens (reads rest (Nat.le_refl _) rfl)
    (reads more (Nat.le_of_lt longer) rfl) carries

theorem exists_of_labelledHead
    {declare : Option Bool → FieldDecl}
    (shows : stream.Shows words)
    (ok : labelledHead stream = .ok (declare, after)) :
    ∃ front rest, words = front ++ rest ∧ after.Shows rest ∧ 4 ≤ front.length ∧
      ∀ more, rest.length < more.length → more.headD "" = "[" →
        Carries (· = ·) fieldOptions fieldOptions rest more →
        Carries (SameUpTo FieldDecl.unplaced) field field words (front ++ more) := by
  obtain ⟨label, next, labelOk, headOk⟩ := bind_eq_ok ok
  obtain ⟨taken, behind, rfl, nextShows, -, reads⟩ :=
    repeats_fieldLabel stream label next shows labelOk
  obtain ⟨front, rest, rfl, afterShows, least, carries⟩ := exists_of_fieldHead nextShows headOk
  refine ⟨taken ++ front, rest, (List.append_assoc ..).symm, afterShows, ?_, ?_⟩
  · rw [List.length_append]
    omega
  intro more longer opens options
  rw [List.append_assoc]
  have lengths : (front ++ rest).length ≤ (front ++ more).length := by
    rw [List.length_append, List.length_append]
    omega
  have near : (front ++ rest).take 1 = (front ++ more).take 1 := by
    rw [List.take_append_of_le_length (by omega), List.take_append_of_le_length (by omega)]
  unfold field
  refine Carries.behind (reads (front ++ rest) (Nat.le_refl _) rfl)
    (reads (front ++ more) lengths near) ?_
  rintro _ _ rfl rfl
  exact carries more longer opens options

theorem exists_of_enumHead
    {value : EnumValueDecl}
    (shows : stream.Shows words)
    (ok : enumHead stream = .ok (value, after)) :
    ∃ front rest, words = front ++ rest ∧ after.Shows rest ∧ 3 ≤ front.length ∧
      ∀ more, rest.length < more.length →
        Carries (· = ·) fieldOptions fieldOptions rest more →
        Carries (SameUpTo EnumValueDecl.unplaced) enumValue enumValue words (front ++ more) := by
  obtain ⟨front, rest, rfl, afterShows, least, reads⟩ :=
    repeats_enumHead stream value after shows ok
  refine ⟨front, rest, rfl, afterShows, least, fun more longer carries => ?_⟩
  rw [enumValue_eq]
  refine Carries.behind (reads rest (Nat.le_refl _) rfl) (reads more (Nat.le_of_lt longer) rfl) ?_
  intro found foundAgain alike alikeAgain
  refine carries.bind fun _ _ left _ _ => ?_
  refine Repeats.carries ((repeats_expectSymbol rfl).bind 0 (fun _ _ _ _ _ => ?_)
    (by decide : 0 ≤ 0 + 0 ∧ 0 ≤ 1 + 0))
  exact repeats_pure (alike.symm.trans alikeAgain)

end Fields

/-! ### Statements -/

section Statements

variable {name : String}

/-- A decision that falls the same way in both texts, as the words that it sees are the same. -/
private theorem Carries.refuses
    {α : Type}
    {same : α → α → Prop}
    {look count : Nat}
    {decision : Parser Bool}
    {yes no yesAgain noAgain : Parser α}
    (decides : Decides decision false look [] words)
    (near : words.take count = others.take count)
    (within : look ≤ count)
    (goesOn : Carries same no noAgain words others) :
    Carries same (do if ← decision then yes else no) (do if ← decision then yesAgain else noAgain)
      words others := by
  have alike := congrArg (List.take look) near
  rw [List.take_take, List.take_take, Nat.min_eq_left within] at alike
  exact Carries.decided decides alike goesOn

private theorem refuses_symbol {symbol : String}
    (isName : TokenClass.isTypeName (words.headD "") = true)
    (noName : TokenClass.isTypeName symbol = false) :
    Decides (acceptWord symbol) false 1 [] words :=
  decides_refuse (beq_false_of_ne (ne_of_isTypeName isName noName))

/-- The end of the file is no name. -/
private theorem refuses_end (isName : TokenClass.isTypeName (words.headD "") = true) :
    Decides atEnd false 1 [] words := by
  have solid : String.isEmpty (words[0]?.getD "") = false := by
    rw [← List.head?_eq_getElem?, ← List.headD_eq_head?_getD]
    exact isEmpty_of_isTypeName isName
  rw [← solid]
  exact decides_sees

theorem carries_fileMessage
    {file other : FileDecl}
    (alike : SameUpTo FileDecl.unplaced file other)
    (carries : Carries (SameUpTo MessageDecl.unplaced) message message words others) :
    Carries (Round.Alike (SameUpTo FileDecl.unplaced) (SameUpTo FileDecl.unplaced))
      (fileStatement file) (fileStatement other) ("message" :: words) ("message" :: others) := by
  obtain ⟨edition, package, imports, messages, enums, extensions⟩ := FileDecl.sameUpTo_iff.mp alike
  unfold fileStatement
  refine .refused (by decide) (.refusedWord (by decide) (.refusedWord (by decide) ?_))
  refine .refusedWord (by decide) (.refusedWord (by decide) (.refusedWord (by decide) ?_))
  refine .acceptedWord (carries.bind fun read again _ _ same => carries_pure (.again ?_))
  exact FileDecl.sameUpTo_iff.mpr ⟨edition, package, imports,
    append_sameUpTo messages (singleton_sameUpTo same), enums, extensions⟩

theorem carries_fileEnum
    {file other : FileDecl}
    (alike : SameUpTo FileDecl.unplaced file other)
    (carries : Carries (SameUpTo EnumDecl.unplaced) enum enum words others) :
    Carries (Round.Alike (SameUpTo FileDecl.unplaced) (SameUpTo FileDecl.unplaced))
      (fileStatement file) (fileStatement other) ("enum" :: words) ("enum" :: others) := by
  obtain ⟨edition, package, imports, messages, enums, extensions⟩ := FileDecl.sameUpTo_iff.mp alike
  unfold fileStatement
  refine .refused (by decide) (.refusedWord (by decide) (.refusedWord (by decide) ?_))
  refine .refusedWord (by decide) (.refusedWord (by decide) (.refusedWord (by decide) ?_))
  refine .refusedWord (by decide) ?_
  refine .acceptedWord (carries.bind fun read again _ _ same => carries_pure (.again ?_))
  exact FileDecl.sameUpTo_iff.mpr ⟨edition, package, imports, messages,
    append_sameUpTo enums (singleton_sameUpTo same), extensions⟩

theorem carries_fileExtend
    {file other : FileDecl}
    (alike : SameUpTo FileDecl.unplaced file other)
    (carries : Carries (SameUpTo ExtendDecl.unplaced) extendBlock extendBlock words others) :
    Carries (Round.Alike (SameUpTo FileDecl.unplaced) (SameUpTo FileDecl.unplaced))
      (fileStatement file) (fileStatement other) ("extend" :: words) ("extend" :: others) := by
  obtain ⟨edition, package, imports, messages, enums, extensions⟩ := FileDecl.sameUpTo_iff.mp alike
  unfold fileStatement
  refine .refused (by decide) (.refusedWord (by decide) (.refusedWord (by decide) ?_))
  refine .refusedWord (by decide) (.refusedWord (by decide) (.refusedWord (by decide) ?_))
  refine .refusedWord (by decide) (.refusedWord (by decide) ?_)
  refine .acceptedWord (carries.bind fun read again _ _ same => carries_pure (.again ?_))
  exact FileDecl.sameUpTo_iff.mpr ⟨edition, package, imports, messages, enums,
    append_sameUpTo extensions (singleton_sameUpTo same)⟩

section Messages

variable
  {nested nestedAgain : Parser MessageDecl}
  {message other : MessageDecl}
  (alike : SameUpTo MessageDecl.unplaced message other)
include alike

theorem carries_nestedMessage
    (isName : TokenClass.isIdentifier name = true)
    (carries : Carries (SameUpTo MessageDecl.unplaced) nested nestedAgain (name :: words)
      (name :: others)) :
    Carries (Round.Alike (SameUpTo MessageDecl.unplaced) (SameUpTo MessageDecl.unplaced))
      (messageStatement nested message) (messageStatement nestedAgain other)
      ("message" :: name :: words) ("message" :: name :: others) := by
  obtain ⟨same, fields, messages, enums, extensions, ranges⟩ := MessageDecl.sameUpTo_iff.mp alike
  unfold messageStatement
  refine .refusedWord (by decide) (.refusedWord (by decide) (.unseen (by decide) ?_))
  refine .keyword isName (carries.bind fun read again _ _ found => carries_pure (.again ?_))
  exact MessageDecl.sameUpTo_iff.mpr ⟨same, fields,
    append_sameUpTo messages (singleton_sameUpTo found), enums, extensions, ranges⟩

theorem carries_nestedEnum
    (isName : TokenClass.isIdentifier name = true)
    (carries : Carries (SameUpTo EnumDecl.unplaced) enum enum (name :: words) (name :: others)) :
    Carries (Round.Alike (SameUpTo MessageDecl.unplaced) (SameUpTo MessageDecl.unplaced))
      (messageStatement nested message) (messageStatement nestedAgain other)
      ("enum" :: name :: words) ("enum" :: name :: others) := by
  obtain ⟨same, fields, messages, enums, extensions, ranges⟩ := MessageDecl.sameUpTo_iff.mp alike
  unfold messageStatement
  refine .refusedWord (by decide) (.refusedWord (by decide) (.unseen (by decide) ?_))
  refine .otherKeyword (by decide) ?_
  refine .keyword isName (carries.bind fun read again _ _ found => carries_pure (.again ?_))
  exact MessageDecl.sameUpTo_iff.mpr ⟨same, fields, messages,
    append_sameUpTo enums (singleton_sameUpTo found), extensions, ranges⟩

theorem carries_nestedExtend
    (isName : TokenClass.isTypeName name = true)
    (carries : Carries (SameUpTo ExtendDecl.unplaced) extendBlock extendBlock (name :: words)
      (name :: others)) :
    Carries (Round.Alike (SameUpTo MessageDecl.unplaced) (SameUpTo MessageDecl.unplaced))
      (messageStatement nested message) (messageStatement nestedAgain other)
      ("extend" :: name :: words) ("extend" :: name :: others) := by
  obtain ⟨same, fields, messages, enums, extensions, ranges⟩ := MessageDecl.sameUpTo_iff.mp alike
  unfold messageStatement
  refine .refusedWord (by decide) (.refusedWord (by decide) (.unseen (by decide) ?_))
  refine .otherKeyword (by decide) (.otherKeyword (by decide) ?_)
  refine .keyword isName (carries.bind fun read again _ _ found => carries_pure (.again ?_))
  exact MessageDecl.sameUpTo_iff.mpr ⟨same, fields, messages, enums,
    append_sameUpTo extensions (singleton_sameUpTo found), ranges⟩

theorem carries_nestedOneof
    (isName : TokenClass.isIdentifier name = true)
    (carries : Carries (SameUpTo (List.map FieldDecl.unplaced)) oneof oneof
      (name :: "\x7b" :: words) (name :: "\x7b" :: others)) :
    Carries (Round.Alike (SameUpTo MessageDecl.unplaced) (SameUpTo MessageDecl.unplaced))
      (messageStatement nested message) (messageStatement nestedAgain other)
      ("oneof" :: name :: "\x7b" :: words) ("oneof" :: name :: "\x7b" :: others) := by
  obtain ⟨same, fields, messages, enums, extensions, ranges⟩ := MessageDecl.sameUpTo_iff.mp alike
  have decides : Decides acceptOneof true 2 ["oneof"] (name :: "\x7b" :: words) :=
    decides_oneof isName rfl
  unfold messageStatement
  refine .refusedWord (by decide) (.refusedWord (by decide) (.unseen (by decide) ?_))
  refine .otherKeyword (by decide) (.otherKeyword (by decide) (.otherKeyword (by decide) ?_))
  refine Carries.decided decides rfl (carries.bind fun read again _ _ found => carries_pure (.again ?_))
  exact MessageDecl.sameUpTo_iff.mpr ⟨same, append_sameUpTo fields found, messages, enums,
    extensions, ranges⟩

/-- A field carries what is put in if it is read as a field of a message. -/
theorem carries_messageField
    (noKeyword : words.headD "" ∉ statementKeywords)
    (isName : TokenClass.isTypeName (words.headD "") = true)
    (plain : words.headD "" ∉ "map" :: labelKeywords →
      TokenClass.isIdentifier (words[1]?.getD "") = true ∧ words[2]?.getD "" = "=")
    (near : words.take 4 = others.take 4)
    (carries : Carries (SameUpTo FieldDecl.unplaced) field field words others) :
    Carries (Round.Alike (SameUpTo MessageDecl.unplaced) (SameUpTo MessageDecl.unplaced))
      (messageStatement nested message) (messageStatement nestedAgain other) words others := by
  obtain ⟨name, fields, messages, enums, extensions, ranges⟩ := MessageDecl.sameUpTo_iff.mp alike
  have otherWord {keyword : String} {test : String → Bool} (member : keyword ∈ statementKeywords) :
      Decides (acceptWordBefore keyword test) false 1 [] words :=
    decides_otherWord fun same => noKeyword (same ▸ member)
  have noOneof : Decides acceptOneof false 3 [] words := by
    by_cases isOneof : words.headD "" = "oneof"
    · refine decides_noOneof ?_
      rw [(plain (by rw [isOneof]; decide)).2]
      exact Bool.and_false _
    · exact (decides_otherOneof isOneof).weaken (by decide)
  have noRange : Decides (acceptWordBefore "extensions" TokenClass.isInteger) false 2 [] words := by
    by_cases isRange : words.headD "" = "extensions"
    · exact decides_noKeyword (isInteger_of_isIdentifier (plain (by rw [isRange]; decide)).1)
    · exact (decides_otherWord isRange).weaken (by decide)
  unfold messageStatement
  refine .refuses (refuses_symbol isName (by decide)) near (by decide) ?_
  refine .refuses (refuses_symbol isName (by decide)) near (by decide) ?_
  refine .refuses (refuses_end isName) near (by decide) ?_
  refine .refuses (otherWord (by decide)) near (by decide) ?_
  refine .refuses (otherWord (by decide)) near (by decide) ?_
  refine .refuses (otherWord (by decide)) near (by decide) ?_
  refine .refuses noOneof near (by decide) ?_
  refine .refuses noRange near (by decide) ?_
  refine .refuses (otherWord (by decide)) near (by decide) ?_
  refine .refuses (otherWord (by decide)) near (by decide) ?_
  refine carries.bind fun member again _ _ same => carries_pure (.again ?_)
  exact MessageDecl.sameUpTo_iff.mpr ⟨name, append_sameUpTo fields (singleton_sameUpTo same),
    messages, enums, extensions, ranges⟩

end Messages

theorem carries_oneofMember
    {fields fieldsAgain : List FieldDecl}
    (alike : SameUpTo (List.map FieldDecl.unplaced) fields fieldsAgain)
    (noKeyword : words.headD "" ≠ "option")
    (isName : TokenClass.isTypeName (words.headD "") = true)
    (near : words.take 4 = others.take 4)
    (carries : Carries (SameUpTo FieldDecl.unplaced) (unlabelledField .none) (unlabelledField .none)
      words others) :
    Carries (Round.Alike (SameUpTo (List.map FieldDecl.unplaced))
        (SameUpTo (List.map FieldDecl.unplaced)))
      (oneofStatement fields) (oneofStatement fieldsAgain) words others := by
  unfold oneofStatement
  refine .refuses (refuses_symbol isName (by decide)) near (by decide) ?_
  refine .refuses (refuses_symbol isName (by decide)) near (by decide) ?_
  refine .refuses (decides_otherWord noKeyword) near (by decide) ?_
  refine .refuses (refuses_end isName) near (by decide) ?_
  refine carries.bind fun member again _ _ same => carries_pure (.again ?_)
  exact append_sameUpTo alike (singleton_sameUpTo (member_sameUpTo .optional same))

theorem carries_extendField
    {fields fieldsAgain : List FieldDecl}
    (alike : SameUpTo (List.map FieldDecl.unplaced) fields fieldsAgain)
    (isName : TokenClass.isTypeName (words.headD "") = true)
    (near : words.take 4 = others.take 4)
    (carries : Carries (SameUpTo FieldDecl.unplaced) field field words others) :
    Carries (Round.Alike (SameUpTo (List.map FieldDecl.unplaced))
        (SameUpTo (List.map FieldDecl.unplaced)))
      (extendStatement fields) (extendStatement fieldsAgain) words others := by
  unfold extendStatement
  refine .refuses (refuses_symbol isName (by decide)) near (by decide) ?_
  refine .refuses (refuses_symbol isName (by decide)) near (by decide) ?_
  refine .refuses (refuses_end isName) near (by decide) ?_
  refine carries.bind fun member again _ _ same => carries_pure (.again ?_)
  exact append_sameUpTo alike (singleton_sameUpTo same)

/-- A value is no other statement, as an equals sign is behind its name. -/
theorem carries_enumMember
    {values valuesAgain : List EnumValueDecl}
    (alike : SameUpTo (List.map EnumValueDecl.unplaced) values valuesAgain)
    (isName : TokenClass.isIdentifier (words.headD "") = true)
    (equals : words[1]?.getD "" = "=")
    (near : words.take 3 = others.take 3)
    (carries : Carries (SameUpTo EnumValueDecl.unplaced) enumValue enumValue words others) :
    Carries (Round.Alike (SameUpTo (List.map EnumValueDecl.unplaced))
        (SameUpTo (List.map EnumValueDecl.unplaced)))
      (enumStatement values) (enumStatement valuesAgain) words others := by
  have isType := isTypeName_of_isIdentifier isName
  have noKeyword {keyword : String} :
      Decides (acceptWordBefore keyword (· != "=")) false 2 [] words := by
    refine decides_noKeyword ?_
    rw [equals]
    rfl
  unfold enumStatement
  refine .refuses (refuses_symbol isType (by decide)) near (by decide) ?_
  refine .refuses (refuses_symbol isType (by decide)) near (by decide) ?_
  refine .refuses noKeyword near (by decide) (.refuses noKeyword near (by decide) ?_)
  refine carries.bind fun value again _ _ same => carries_pure (.again ?_)
  exact append_sameUpTo alike (singleton_sameUpTo same)

end Statements

end Parser

end ProtoWire.Proto
