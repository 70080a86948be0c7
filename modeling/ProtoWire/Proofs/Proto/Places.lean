import ProtoWire.Proofs.Proto.Bodies
import ProtoWire.Proofs.Proto.Ignored

/-!
Contract: what the grammar ignores leaves no trace. Words that are ignored at a place of a file may
be put in there, and the file stays the same up to positions.

Owns:
- the places of a file, and how the parsers get from one to the next;
- what may be put in at each of them;
- that the way to a place is the same with the words put in.

Does not own: which words are ignored, or the statements around a place.
-/

namespace ProtoWire.Proto

/-! ### Places -/

/-- A place in front of a statement of a body or of its end, with what was read of the body so far,
or a place in the options of a field or of the value of an enum. -/
inductive Spot where
  | file (file : FileDecl)
  | message (message : MessageDecl)
  | enum (values : List EnumValueDecl)
  | oneof (fields : List FieldDecl)
  | extend (fields : List FieldDecl)
  /-- Behind the number, whether there are options in brackets or not. -/
  | options
  /-- In front of an option in brackets, with the value of `packed` if it is known. -/
  | option (packed : Option Bool)
  /-- Behind an option in brackets. -/
  | behindOption (packed : Option Bool)

namespace Spot

/-- The body of which statements stand at a place. Extend blocks ignore no statements but
semicolons, and are left out. -/
def body? : Spot → Option Body
  | .file _ => some .file
  | .message _ => some .message
  | .enum _ => some .enum
  | .oneof _ => some .oneof
  | .extend _ | .options | .option _ | .behindOption _ => none

/-- The words that may be put in at a place in front of other words. -/
inductive Admits : Spot → List String → List String → Prop where
  | statement
      {spot : Spot}
      {body : Body}
      {rest words : List String}
      (inBody : spot.body? = some body)
      (isIgnored : IsIgnored body words) :
      Admits spot rest words
  | onlyOption
      {rest words : List String}
      (noOptions : rest.headD "" ≠ "[")
      (isOption : IsIgnoredOption words) :
      Admits .options rest ("[" :: (words ++ ["]"]))
  | optionBefore
      {packed : Option Bool}
      {rest words : List String}
      (isOption : IsIgnoredOption words) :
      Admits (.option packed) rest (words ++ [","])
  | optionBehind
      {packed : Option Bool}
      {rest words : List String}
      (isOption : IsIgnoredOption words) :
      Admits (.behindOption packed) rest ("," :: words)

/-- Whether messages, enums and extend blocks are declared at a place. -/
def declares : Spot → Bool
  | .file _ | .message _ => true
  | _ => false

open ProtoWire.Proto.Parser

/-- From one place to the next, behind a statement or an option, or into a body or the options of a
field. -/
inductive Step : Spot → TokenStream → Spot → TokenStream → Prop where
  | file
      {file next : FileDecl}
      {stream after : TokenStream}
      (ok : fileStatement file stream = .ok (.again next, after)) :
      Step (.file file) stream (.file next) after
  | message
      {message next : MessageDecl}
      {stream after : TokenStream}
      (ok : messageStatement Parser.message message stream = .ok (.again next, after)) :
      Step (.message message) stream (.message next) after
  | enum
      {values next : List EnumValueDecl}
      {stream after : TokenStream}
      (ok : enumStatement values stream = .ok (.again next, after)) :
      Step (.enum values) stream (.enum next) after
  | oneof
      {fields next : List FieldDecl}
      {stream after : TokenStream}
      (ok : oneofStatement fields stream = .ok (.again next, after)) :
      Step (.oneof fields) stream (.oneof next) after
  | extend
      {fields next : List FieldDecl}
      {stream after : TokenStream}
      (ok : extendStatement fields stream = .ok (.again next, after)) :
      Step (.extend fields) stream (.extend next) after
  | option
      {packed next : Option Bool}
      {stream after : TokenStream}
      (ok : optionRound packed stream = .ok (.again next, after)) :
      Step (.option packed) stream (.option next) after
  | behindOption
      {packed next : Option Bool}
      {stream after : TokenStream}
      (ok : fieldOption packed stream = .ok (next, after)) :
      Step (.option packed) stream (.behindOption next) after
  | intoMessage
      {spot : Spot}
      {stream after : TokenStream}
      {name : Token}
      (declares : spot.declares = true)
      (keyword : stream.current.text = "message")
      (ok : bodyHead TokenClass.isIdentifier "identifier" stream.advance = .ok (name, after)) :
      Step spot stream (.message ⟨name.text, name.position, [], [], [], [], []⟩) after
  | intoEnum
      {spot : Spot}
      {stream after : TokenStream}
      {name : Token}
      (declares : spot.declares = true)
      (keyword : stream.current.text = "enum")
      (ok : bodyHead TokenClass.isIdentifier "identifier" stream.advance = .ok (name, after)) :
      Step spot stream (.enum []) after
  | intoExtend
      {spot : Spot}
      {stream after : TokenStream}
      {name : Token}
      (declares : spot.declares = true)
      (keyword : stream.current.text = "extend")
      (ok : bodyHead TokenClass.isTypeName "message name" stream.advance = .ok (name, after)) :
      Step spot stream (.extend []) after
  | intoOneof
      {message : MessageDecl}
      {stream after : TokenStream}
      {name : Token}
      (keyword : stream.current.text = "oneof")
      (ok : bodyHead TokenClass.isIdentifier "identifier" stream.advance = .ok (name, after)) :
      Step (.message message) stream (.oneof []) after
  -- Words that look like a field are another statement if they start with its keyword.
  | behindField
      {message : MessageDecl}
      {stream after : TokenStream}
      {declare : Option Bool → FieldDecl}
      (noKeyword : stream.current.text ∉ statementKeywords)
      (ok : labelledHead stream = .ok (declare, after)) :
      Step (.message message) stream .options after
  | behindMember
      {fields : List FieldDecl}
      {stream after : TokenStream}
      {declare : Option Bool → FieldDecl}
      (noKeyword : stream.current.text ≠ "option")
      (ok : fieldHead .none stream = .ok (declare, after)) :
      Step (.oneof fields) stream .options after
  | behindExtension
      {fields : List FieldDecl}
      {stream after : TokenStream}
      {declare : Option Bool → FieldDecl}
      (ok : labelledHead stream = .ok (declare, after)) :
      Step (.extend fields) stream .options after
  | behindValue
      {values : List EnumValueDecl}
      {stream after : TokenStream}
      {value : EnumValueDecl}
      (ok : enumHead stream = .ok (value, after)) :
      Step (.enum values) stream .options after
  | intoOptions
      {stream : TokenStream}
      (opens : stream.current.text = "[") :
      Step .options stream (.option none) stream.advance

/-- From one place to another one in any number of steps. -/
inductive Reaches : Spot → TokenStream → Spot → TokenStream → Prop where
  | here {spot : Spot} {stream : TokenStream} : Reaches spot stream spot stream
  | step
      {spot next last : Spot}
      {stream after place : TokenStream}
      (first : Step spot stream next after)
      (later : Reaches next after last place) :
      Reaches spot stream last place

/-- The parsers that go on at a place of two texts run side by side. -/
def Carries (spot : Spot) (words others : List String) : Prop :=
  match spot with
  | .file known =>
      LoopCarries FileDecl.unplaced (SameUpTo FileDecl.unplaced) fileStatement fileStatement known
        words others
  | .message known => MessageCarries known words others
  | .enum values =>
      LoopCarries (List.map EnumValueDecl.unplaced) (SameUpTo (List.map EnumValueDecl.unplaced))
        enumStatement enumStatement values words others
  | .oneof fields =>
      LoopCarries (List.map FieldDecl.unplaced) (SameUpTo (List.map FieldDecl.unplaced))
        oneofStatement oneofStatement fields words others
  | .extend fields =>
      LoopCarries (List.map FieldDecl.unplaced) (SameUpTo (List.map FieldDecl.unplaced))
        extendStatement extendStatement fields words others
  | .options => Parser.Carries (· = ·) fieldOptions fieldOptions words others ∧ others.headD "" = "["
  | .option packed => LoopCarries id (· = ·) optionRound optionRound packed words others
  | .behindOption packed =>
      ∀ count more, count < more →
        Parser.Carries (· = ·) (optionsBehind count packed) (optionsBehind more packed) words others

/-! ### What is put in -/

section Insertion

variable {spot : Spot} {rest words : List String}

theorem carries_ignoredStatement
    {body : Body}
    (inBody : spot.body? = some body)
    (isIgnored : IsIgnored body words) :
    spot.Carries rest (words ++ rest) := by
  cases spot with
  | file file =>
      obtain rfl := Option.some.inj inBody
      exact LoopCarries.insert (fun _ _ => reads_ignoredFileStatement isIgnored)
        fun _ _ _ _ alike => repeats_fileRound alike
  | message message =>
      obtain rfl := Option.some.inj inBody
      intro levels deeper _ enough
      rw [List.length_append] at enough
      exact LoopCarries.insert (fun _ _ => reads_ignoredMessageStatement isIgnored)
        fun _ _ _ short alike => repeats_messageRound (by omega) alike
  | enum values =>
      obtain rfl := Option.some.inj inBody
      exact LoopCarries.insert (fun _ _ => reads_ignoredEnumStatement isIgnored)
        fun _ _ _ _ alike => repeats_enumStatement alike
  | oneof fields =>
      obtain rfl := Option.some.inj inBody
      exact LoopCarries.insert (fun _ _ => reads_ignoredOneofStatement isIgnored)
        fun _ _ _ _ alike => repeats_oneofStatement alike
  | extend | options | option | behindOption => cases inBody

/-- Options in brackets are put in where there are none. -/
theorem carries_onlyOption
    (noOptions : rest.headD "" ≠ "[")
    (isOption : IsIgnoredOption words) :
    Spot.options.Carries rest ("[" :: (words ++ ["]"]) ++ rest) := by
  refine ⟨fun stream again value next shows showsAgain ok => ?_, rfl⟩
  have opens : ((rest.headD "" == "[") : Bool) = false := beq_false_of_ne noOptions
  have without : Reads fieldOptions ([] ++ rest) rest (· = none) := by
    rw [fieldOptions_eq]
    exact (decides_refuse opens).reads (reads_pure rfl)
  have within : Reads fieldOptions ("[" :: (words ++ ["]"]) ++ rest) rest (· = none) := by
    rw [fieldOptions_eq, List.cons_append, List.append_assoc]
    refine .acceptedWord (Loops.reads (loops_done ?_))
    refine (reads_fieldOption isOption).bind ?_
    rintro _ rfl
    refine .refusedWord (by decide) ((reads_expectSymbol "]").bind fun _ _ => reads_pure ?_)
    exact ⟨_, rfl, rfl⟩
  obtain ⟨_, last, found, lastShows, rfl⟩ := without stream shows
  obtain ⟨_, lastAgain, foundAgain, lastShowsAgain, rfl⟩ := within again showsAgain
  rw [found] at ok
  obtain ⟨rfl, rfl⟩ := Prod.mk.inj (Except.ok.inj ok)
  exact ⟨rest, _, lastAgain, foundAgain, rfl, lastShows, lastShowsAgain, Nat.le_refl _⟩

theorem carries_optionBefore {packed : Option Bool} (isOption : IsIgnoredOption words) :
    (Spot.option packed).Carries rest (words ++ [","] ++ rest) := by
  refine LoopCarries.insert (fun second _ => ?_)
    fun _ _ _ _ alike => repeats_optionRound_sameUpTo alike
  rw [List.append_assoc]
  refine (reads_fieldOption isOption).bind ?_
  rintro _ rfl
  exact .acceptedWord (reads_pure rfl)

/-- An option that is put in behind another one is read in a round of its own. -/
theorem carries_optionBehind {packed : Option Bool} (isOption : IsIgnoredOption words) :
    (Spot.behindOption packed).Carries rest ("," :: words ++ rest) := by
  intro count more fewer
  obtain ⟨more, rfl⟩ := Nat.exists_eq_add_one.mpr (Nat.zero_lt_of_lt fewer)
  have separates : Reads (optionEnd packed) ("," :: words ++ rest) (words ++ rest)
      (· = .again packed) :=
    .acceptedWord (reads_pure rfl)
  refine Carries.insert separates ?_
  dsimp only
  rw [loopWithin_optionRound]
  refine Carries.insert (reads_fieldOption isOption) ?_
  exact (repeats_optionsBehind (Nat.le_of_lt_succ fewer)).carries

/-- What may be put in at a place is passed over there. -/
theorem Admits.carries (admits : spot.Admits rest words) : spot.Carries rest (words ++ rest) := by
  cases admits with
  | statement inBody isIgnored => exact carries_ignoredStatement inBody isIgnored
  | onlyOption noOptions isOption => exact carries_onlyOption noOptions isOption
  | optionBefore isOption => exact carries_optionBefore isOption
  | optionBehind isOption => exact carries_optionBehind isOption

theorem Admits.ne_nil (admits : spot.Admits rest words) : words ≠ [] := by
  cases admits with
  | statement _ isIgnored => cases isIgnored <;> exact List.cons_ne_nil _ _
  | onlyOption | optionBehind => exact List.cons_ne_nil _ _
  | optionBefore => exact List.append_ne_nil_of_right_ne_nil _ (List.cons_ne_nil _ _)

end Insertion

/-! ### The way to a place -/

/-- On the way to a place some words are taken off the front. Whatever longer words are put behind
them instead of the others, what is carried behind them is carried in front of them. -/
def Leads (spot : Spot) (words : List String) (next : Spot) (after : TokenStream) : Prop :=
  ∃ front rest, words = front ++ rest ∧ after.Shows rest ∧
    ∀ more, rest.length < more.length → next.Carries rest more → spot.Carries words (front ++ more)

private theorem take_front
    {front rest more : List String}
    {count : Nat}
    (least : count ≤ front.length) :
    (front ++ rest).take count = (front ++ more).take count := by
  rw [List.take_append_of_le_length least, List.take_append_of_le_length least]

/-- A declaration carries what is put in if it does so as a statement of a file and of a message. -/
private theorem carries_declaration
    {spot : Spot}
    {words others : List String}
    (declares : spot.declares = true)
    (longer : words.length ≤ others.length)
    (inFile : ∀ first second, SameUpTo FileDecl.unplaced first second →
      Parser.Carries (Round.Alike (SameUpTo FileDecl.unplaced) (SameUpTo FileDecl.unplaced))
        (fileStatement first) (fileStatement second) words others)
    (inMessage : ∀ levels deeper first second, words.length < levels → others.length < deeper →
      SameUpTo MessageDecl.unplaced first second →
      Parser.Carries (Round.Alike (SameUpTo MessageDecl.unplaced) (SameUpTo MessageDecl.unplaced))
        (messageStatement (messageWithin levels) first)
        (messageStatement (messageWithin deeper) second) words others) :
    spot.Carries words others := by
  cases spot with
  | file file => exact LoopCarries.inside inFile fun _ _ _ _ alike => repeats_fileRound alike
  | message message => exact MessageCarries.inside longer inMessage
  | enum | oneof | extend | options | option | behindOption => cases declares

section Steps

variable
  {spot : Spot}
  {stream after : TokenStream}
  {words : List String}
  {name : Token}
  (shows : stream.Shows words)
include shows

theorem leads_file
    {file next : FileDecl}
    (ok : fileStatement file stream = .ok (.again next, after)) :
    (Spot.file file).Leads words (.file next) after := by
  have solid : (words.headD "").isEmpty = false := by
    rw [← shows.current_eq, Bool.eq_false_iff]
    intro ends
    have done : accept String.isEmpty stream = .ok (true, stream.advance) := if_pos ends
    unfold fileStatement at ok
    rw [bind_ok done] at ok
    cases ok
  exact LoopCarries.exists_of_run (fun _ alike => repeats_fileStatement solid alike) shows ok

theorem leads_message
    {message next : MessageDecl}
    (ok : messageStatement Parser.message message stream = .ok (.again next, after)) :
    (Spot.message message).Leads words (.message next) after := by
  have rounds (levels : Nat) (enough : words.length < levels) (other : MessageDecl)
      (alike : SameUpTo MessageDecl.unplaced message other) :
      Repeats (Round.Alike (SameUpTo MessageDecl.unplaced) (SameUpTo MessageDecl.unplaced)) 0 1
        (messageStatement Parser.message message) (messageStatement (messageWithin levels) other)
        words :=
    repeats_messageStatement
      (fun inner shorter nested => repeats_messageWithin (Nat.lt_trans shorter enough) nested) alike
  obtain ⟨front, rest, rfl, afterShows, -, -⟩ :=
    rounds _ (Nat.lt_succ_self _) message rfl stream _ after shows ok
  refine ⟨front, rest, rfl, afterShows, fun more longer carries levels deeper enough enoughAgain => ?_⟩
  rw [List.length_append] at enough enoughAgain
  refine (carries levels deeper (by omega) (by omega)).again (fun first alike => ?_)
    (fun second alike => ?_)
  · refine (rounds levels ?_ first alike).reads_of_run shows ok afterShows (Nat.le_refl _)
    rwa [List.length_append]
  · refine (rounds deeper ?_ second alike).reads_of_run shows ok afterShows (Nat.le_of_lt longer)
    rw [List.length_append]
    omega

theorem leads_behindOption
    {packed next : Option Bool}
    (ok : fieldOption packed stream = .ok (next, after)) :
    (Spot.option packed).Leads words (.behindOption next) after := by
  obtain ⟨front, rest, rfl, afterShows, -, reads⟩ := repeats_fieldOption stream next after shows ok
  refine ⟨front, rest, rfl, afterShows, fun more longer carries => ?_⟩
  intro first second count most fewer alike alikeAgain
  obtain rfl : packed = first := alike
  obtain rfl : packed = second := alikeAgain
  cases count with
  | zero => exact carries_error fun stream _ => ⟨_, rfl⟩
  | succ count =>
      obtain ⟨most, rfl⟩ := Nat.exists_eq_add_one.mpr (Nat.zero_lt_of_lt fewer)
      rw [loopWithin_optionRound, loopWithin_optionRound]
      refine Carries.behind (reads rest (Nat.le_refl _) rfl)
        (reads more (Nat.le_of_lt longer) rfl) ?_
      rintro _ _ rfl rfl
      exact carries count most (Nat.lt_of_succ_lt_succ fewer)

theorem leads_intoMessage
    (declares : spot.declares = true)
    (keyword : stream.current.text = "message")
    (ok : bodyHead TokenClass.isIdentifier "identifier" stream.advance = .ok (name, after)) :
    spot.Leads words (.message ⟨name.text, name.position, [], [], [], [], []⟩) after := by
  obtain ⟨behind, rfl, behindShows⟩ := shows.exists_of_current keyword (by decide)
  obtain ⟨rest, rfl, isName, afterShows⟩ := words_of_bodyHead rfl behindShows ok
  refine ⟨["message", name.text, "\x7b"], rest, rfl, afterShows, fun more longer carries => ?_⟩
  refine carries_declaration declares (Nat.add_le_add_right (Nat.le_of_lt longer) 3)
    (fun _ _ alike => carries_fileMessage alike (carries_message isName longer carries))
    fun _ _ _ _ enough enoughAgain alike => carries_nestedMessage alike isName ?_
  exact carries_messageWithin isName longer carries (Nat.lt_of_succ_lt enough)
    (Nat.lt_of_succ_lt enoughAgain)

theorem leads_intoEnum
    (declares : spot.declares = true)
    (keyword : stream.current.text = "enum")
    (ok : bodyHead TokenClass.isIdentifier "identifier" stream.advance = .ok (name, after)) :
    spot.Leads words (.enum []) after := by
  obtain ⟨behind, rfl, behindShows⟩ := shows.exists_of_current keyword (by decide)
  obtain ⟨rest, rfl, isName, afterShows⟩ := words_of_bodyHead rfl behindShows ok
  refine ⟨["enum", name.text, "\x7b"], rest, rfl, afterShows, fun more longer carries => ?_⟩
  have enum := carries_enum isName longer carries
  exact carries_declaration declares (Nat.add_le_add_right (Nat.le_of_lt longer) 3)
    (fun _ _ alike => carries_fileEnum alike enum)
    fun _ _ _ _ _ _ alike => carries_nestedEnum alike isName enum

theorem leads_intoExtend
    (declares : spot.declares = true)
    (keyword : stream.current.text = "extend")
    (ok : bodyHead TokenClass.isTypeName "message name" stream.advance = .ok (name, after)) :
    spot.Leads words (.extend []) after := by
  obtain ⟨behind, rfl, behindShows⟩ := shows.exists_of_current keyword (by decide)
  obtain ⟨rest, rfl, isName, afterShows⟩ := words_of_bodyHead rfl behindShows ok
  refine ⟨["extend", name.text, "\x7b"], rest, rfl, afterShows, fun more longer carries => ?_⟩
  have block := carries_extendBlock isName longer carries
  exact carries_declaration declares (Nat.add_le_add_right (Nat.le_of_lt longer) 3)
    (fun _ _ alike => carries_fileExtend alike block)
    fun _ _ _ _ _ _ alike => carries_nestedExtend alike isName block

theorem leads_intoOneof
    {message : MessageDecl}
    (keyword : stream.current.text = "oneof")
    (ok : bodyHead TokenClass.isIdentifier "identifier" stream.advance = .ok (name, after)) :
    (Spot.message message).Leads words (.oneof []) after := by
  obtain ⟨behind, rfl, behindShows⟩ := shows.exists_of_current keyword (by decide)
  obtain ⟨rest, rfl, isName, afterShows⟩ := words_of_bodyHead rfl behindShows ok
  refine ⟨["oneof", name.text, "\x7b"], rest, rfl, afterShows, fun more longer carries => ?_⟩
  refine MessageCarries.inside ?_ fun _ _ _ _ _ _ alike => ?_
  · exact Nat.add_le_add_right (Nat.le_of_lt longer) 3
  · exact carries_nestedOneof alike isName (carries_oneof isName longer carries)

theorem leads_behindField
    {message : MessageDecl}
    {declare : Option Bool → FieldDecl}
    (noKeyword : stream.current.text ∉ statementKeywords)
    (ok : labelledHead stream = .ok (declare, after)) :
    (Spot.message message).Leads words .options after := by
  rw [shows.current_eq] at noKeyword
  obtain ⟨isName, plain⟩ := words_of_labelledHead shows ok
  obtain ⟨front, rest, rfl, afterShows, least, carries⟩ := exists_of_labelledHead shows ok
  refine ⟨front, rest, rfl, afterShows, fun more longer ⟨listed, opens⟩ => ?_⟩
  refine MessageCarries.inside ?_ fun _ _ _ _ _ _ alike => ?_
  · rw [List.length_append, List.length_append]
    omega
  · exact carries_messageField alike noKeyword isName plain (take_front least)
      (carries more longer opens listed)

theorem leads_behindMember
    {fields : List FieldDecl}
    {declare : Option Bool → FieldDecl}
    (noKeyword : stream.current.text ≠ "option")
    (ok : fieldHead .none stream = .ok (declare, after)) :
    (Spot.oneof fields).Leads words .options after := by
  rw [shows.current_eq] at noKeyword
  obtain ⟨isName, -⟩ := words_of_fieldHead shows ok
  obtain ⟨front, rest, rfl, afterShows, least, carries⟩ := exists_of_fieldHead shows ok
  refine ⟨front, rest, rfl, afterShows, fun more longer ⟨listed, opens⟩ => ?_⟩
  refine LoopCarries.inside (fun _ _ alike => ?_) fun _ _ _ _ alike => repeats_oneofStatement alike
  exact carries_oneofMember alike noKeyword isName (take_front least)
    (carries more longer opens listed)

theorem leads_behindExtension
    {fields : List FieldDecl}
    {declare : Option Bool → FieldDecl}
    (ok : labelledHead stream = .ok (declare, after)) :
    (Spot.extend fields).Leads words .options after := by
  obtain ⟨isName, -⟩ := words_of_labelledHead shows ok
  obtain ⟨front, rest, rfl, afterShows, least, carries⟩ := exists_of_labelledHead shows ok
  refine ⟨front, rest, rfl, afterShows, fun more longer ⟨listed, opens⟩ => ?_⟩
  refine LoopCarries.inside (fun _ _ alike => ?_) fun _ _ _ _ alike => repeats_extendStatement alike
  exact carries_extendField alike isName (take_front least) (carries more longer opens listed)

theorem leads_behindValue
    {values : List EnumValueDecl}
    {value : EnumValueDecl}
    (ok : enumHead stream = .ok (value, after)) :
    (Spot.enum values).Leads words .options after := by
  obtain ⟨isName, equals⟩ := words_of_enumHead shows ok
  obtain ⟨front, rest, rfl, afterShows, least, carries⟩ := exists_of_enumHead shows ok
  refine ⟨front, rest, rfl, afterShows, fun more longer ⟨listed, _⟩ => ?_⟩
  refine LoopCarries.inside (fun _ _ alike => ?_) fun _ _ _ _ alike => repeats_enumStatement alike
  exact carries_enumMember alike isName equals (take_front least) (carries more longer listed)

theorem leads_intoOptions (opens : stream.current.text = "[") :
    Spot.options.Leads words (.option none) stream.advance := by
  obtain ⟨rest, rfl, restShows⟩ := shows.exists_of_current opens (by decide)
  exact ⟨["["], rest, rfl, restShows, fun more longer carries =>
    ⟨carries_fieldOptions longer carries, rfl⟩⟩

end Steps

/-- One step carries what is put in behind it. -/
theorem Step.leads
    {spot next : Spot}
    {stream after : TokenStream}
    {words : List String}
    (step : Step spot stream next after)
    (shows : stream.Shows words) :
    spot.Leads words next after := by
  cases step with
  | file ok => exact leads_file shows ok
  | message ok => exact leads_message shows ok
  | enum ok => exact LoopCarries.exists_of_run (fun _ alike => repeats_enumStatement alike) shows ok
  | oneof ok =>
      exact LoopCarries.exists_of_run (fun _ alike => repeats_oneofStatement alike) shows ok
  | extend ok =>
      exact LoopCarries.exists_of_run (fun _ alike => repeats_extendStatement alike) shows ok
  | option ok =>
      exact LoopCarries.exists_of_run (fun _ alike => repeats_optionRound_sameUpTo alike) shows ok
  | behindOption ok => exact leads_behindOption shows ok
  | intoMessage declares keyword ok => exact leads_intoMessage shows declares keyword ok
  | intoEnum declares keyword ok => exact leads_intoEnum shows declares keyword ok
  | intoExtend declares keyword ok => exact leads_intoExtend shows declares keyword ok
  | intoOneof keyword ok => exact leads_intoOneof shows keyword ok
  | behindField noKeyword ok => exact leads_behindField shows noKeyword ok
  | behindMember noKeyword ok => exact leads_behindMember shows noKeyword ok
  | behindExtension ok => exact leads_behindExtension shows ok
  | behindValue ok => exact leads_behindValue shows ok
  | intoOptions opens => exact leads_intoOptions shows opens

/-- The whole way to a place carries what is put in there. -/
theorem Reaches.leads
    {spot last : Spot}
    {stream place : TokenStream}
    {words : List String}
    (reaches : Reaches spot stream last place)
    (shows : stream.Shows words) :
    spot.Leads words last place := by
  induction reaches generalizing words with
  | here => exact ⟨[], words, rfl, shows, fun _ _ carries => carries⟩
  | step first _ inductionHypothesis =>
      obtain ⟨front, rest, rfl, afterShows, carries⟩ := first.leads shows
      obtain ⟨taken, left, rfl, placeShows, later⟩ := inductionHypothesis afterShows
      refine ⟨front ++ taken, left, (List.append_assoc ..).symm, placeShows, fun more longer last => ?_⟩
      rw [List.append_assoc]
      refine carries (taken ++ more) ?_ (later more longer last)
      rw [List.length_append, List.length_append]
      omega

end Spot

/-- What the grammar ignores leaves no trace. If tokens stand for a file, they do so with words put
in at any place of the file that admits them, and they stand for the same file up to positions. -/
theorem FileDecl.ofTokens_insert
    {stream place : TokenStream}
    {spot : Spot}
    {file : FileDecl}
    {front rest words : List String}
    {again : List Token}
    (shows : stream.Shows (front ++ rest))
    (accepted : FileDecl.ofTokens (stream.current :: stream.following) = .ok file)
    (reaches : Spot.Reaches (.file .empty) stream spot place)
    (placeShows : place.Shows rest)
    (admits : spot.Admits rest words)
    (texts : again.map Token.text = front ++ words ++ rest ++ [""]) :
    ∃ other, FileDecl.ofTokens again = .ok other ∧ other.unplaced = file.unplaced := by
  obtain ⟨taken, left, whole, leftShows, carries⟩ := reaches.leads shows
  obtain rfl := placeShows.eq leftShows
  obtain rfl := List.append_cancel_right whole
  have longer : rest.length < (words ++ rest).length := by
    rw [List.length_append]
    have positive := List.length_pos_iff.mpr admits.ne_nil
    omega
  have texts : again.map Token.text = (front ++ (words ++ rest)) ++ [""] := by
    rw [texts, List.append_assoc front]
  obtain ⟨token, others, rfl, showsAgain⟩ := TokenStream.exists_of_texts texts
  obtain ⟨⟨result, last⟩, ok, rfl⟩ := Outcome.map_eq_ok.mp accepted
  have loops := carries (words ++ rest) longer admits.carries
  have carried := Parser.LoopCarries.loop ?_ loops rfl rfl
  · obtain ⟨_, other, lastAgain, okAgain, same, -⟩ := carried _ _ _ _ shows showsAgain ok
    exact ⟨other, Outcome.map_eq_ok.mpr ⟨_, okAgain, rfl⟩, same.symm⟩
  · rw [List.length_append, List.length_append]
    omega

/-- Tokens that all have the first position. -/
def Token.unplaced (words : List String) : List Token :=
  words.map fun word => ⟨word, .first⟩

/-- A block with a bracket and a semicolon in it stands for the constant of an option. -/
theorem FileDecl.ofTokens_insert_block :
    FileDecl.ofTokens (Token.unplaced ["enum", "E", "\x7b", "X", "=", "0", ";", "\x7d", ""]) =
      .ok ⟨.proto2, none, [], [], [⟨"E", .first, [⟨"X", .first, 0⟩]⟩], []⟩ ∧
    ∃ other,
      FileDecl.ofTokens (Token.unplaced ["enum", "E", "\x7b", "X", "=", "0", "[", "a", "=", "\x7b", "]",
        ";", "\x7d", "]", ";", "\x7d", ""]) = .ok other ∧
      other.unplaced = ⟨.proto2, none, [], [], [⟨"E", .first, [⟨"X", .first, 0⟩]⟩], []⟩ := by
  have accepted : FileDecl.ofTokens
      (Token.unplaced ["enum", "E", "\x7b", "X", "=", "0", ";", "\x7d", ""]) =
        .ok ⟨.proto2, none, [], [], [⟨"E", .first, [⟨"X", .first, 0⟩]⟩], []⟩ := rfl
  let stream : TokenStream :=
    ⟨⟨"enum", .first⟩, Token.unplaced ["E", "\x7b", "X", "=", "0", ";", "\x7d", ""]⟩
  let place : TokenStream := ⟨⟨";", .first⟩, Token.unplaced ["\x7d", ""]⟩
  let value : TokenStream := ⟨⟨"X", .first⟩, Token.unplaced ["=", "0", ";", "\x7d", ""]⟩
  have head : Parser.bodyHead TokenClass.isIdentifier "identifier" stream.advance =
      .ok (⟨"E", .first⟩, value) :=
    Outcome.eq_ok_of_toOption (by decide +kernel)
  have valueHead : Parser.enumHead value = .ok (⟨"X", .first, 0⟩, place) :=
    Outcome.eq_ok_of_toOption (by decide +kernel)
  have reaches : Spot.Reaches (.file .empty) stream .options place :=
    .step (.intoEnum rfl rfl head) (.step (.behindValue valueHead) .here)
  have isName : IsOptionName ["a"] := ⟨["a"], [], rfl, ⟨"a", by decide, .inl rfl⟩, nofun⟩
  have isConstant : IsConstant ["\x7b", "]", ";", "\x7d"] :=
    .inr ⟨["]", ";"], rfl, .word (by decide) (.word (by decide) .nil)⟩
  have isOption : IsIgnoredOption ["a", "=", "\x7b", "]", ";", "\x7d"] :=
    ⟨["a"], ["\x7b", "]", ";", "\x7d"], rfl, isName, by decide, isConstant⟩
  have shows : stream.Shows (["enum", "E", "\x7b", "X", "=", "0"] ++ [";", "\x7d"]) := rfl
  have placeShows : place.Shows [";", "\x7d"] := rfl
  have inserted := @FileDecl.ofTokens_insert _ _ _ _ _ _ _ (Token.unplaced ["enum", "E", "\x7b",
    "X", "=", "0", "[", "a", "=", "\x7b", "]", ";", "\x7d", "]", ";", "\x7d", ""]) shows accepted
    reaches placeShows (.onlyOption (by decide) isOption) rfl
  obtain ⟨other, acceptedAgain, same⟩ := inserted
  exact ⟨accepted, other, acceptedAgain, same⟩

end ProtoWire.Proto
