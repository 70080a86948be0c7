import ProtoWire.Proofs.Proto.Guarantee
import ProtoWire.Proofs.Outcome
import ProtoWire.Proofs.Proto.Lexing

/-!
Contract: what the grammar leaves of declarations. Names are names, numbers fit, and no field is
spelled like another statement at its place.

Owns:
- the rules on declarations that come out of the grammar;
- that every parser returns declarations that obey them.

Does not own: that declarations that obey the rules are read back.
-/

namespace ProtoWire.Proto

/-- The keywords that are read as labels in front of a type. -/
def labelKeywords : List String :=
  ["optional", "required", "repeated"]

/-- The keywords that start a statement of a message even if a name is behind them. -/
def statementKeywords : List String :=
  ["message", "enum", "extend", "reserved", "option"]

/-- A field as it can stand in an extend block. -/
structure FieldDecl.Grammatical (field : FieldDecl) : Prop where
  name : TokenClass.isIdentifier field.name = true
  tag : field.tag ≤ WordRange.maxUInt32
  type : TokenClass.isTypeName field.type = true
  map : ∀ map, field.map = some map →
    TokenClass.isIdentifier map.key = true ∧ map.value = field.type
  bare : field.label = .none → field.map = none → field.type ∉ labelKeywords

/-- A field whose type is not read as the start of another statement of a message. -/
def FieldDecl.StartsNoStatement (field : FieldDecl) : Prop :=
  field.label = .none → field.map = none → field.type ∉ statementKeywords

structure EnumDecl.Grammatical (enum : EnumDecl) : Prop where
  name : TokenClass.isIdentifier enum.name = true
  values : ∀ value ∈ enum.values, TokenClass.isIdentifier value.name = true

structure ExtendDecl.Grammatical (block : ExtendDecl) : Prop where
  name : TokenClass.isTypeName block.name = true
  fields : ∀ field ∈ block.fields, field.Grammatical

def ExtensionRange.Grammatical (range : ExtensionRange) : Prop :=
  range.start ≤ WordRange.maxUInt32 ∧ range.stop ≤ WordRange.maxUInt32

inductive MessageDecl.Grammatical : MessageDecl → Prop where
  | intro
      {message : MessageDecl}
      (name : TokenClass.isIdentifier message.name = true)
      (fields : ∀ field ∈ message.fields, field.Grammatical ∧ field.StartsNoStatement)
      (ranges : ∀ range ∈ message.ranges, range.Grammatical)
      (messages : ∀ nested ∈ message.messages, Grammatical nested)
      (enums : ∀ enum ∈ message.enums, enum.Grammatical)
      (extensions : ∀ block ∈ message.extensions, block.Grammatical) :
      Grammatical message

structure FileDecl.Grammatical (file : FileDecl) : Prop where
  package : ∀ package, file.package = some package →
    TokenClass.namesGoOn true package.toList = true
  messages : ∀ message ∈ file.messages, message.Grammatical
  enums : ∀ enum ∈ file.enums, enum.Grammatical
  extensions : ∀ block ∈ file.extensions, block.Grammatical

namespace Parser

variable {stream : TokenStream}

/-! ### Fields -/

theorem ensures_fieldNumber :
    Ensures fieldNumber stream fun number _ => number ≤ WordRange.maxUInt32 := by
  refine ensures_expect.bind fun token next _ => ?_
  cases value : TokenClass.unsignedValue? token.text with
  | none => exact ensures_error rfl
  | some number =>
      refine ensures_pure ?_
      obtain ⟨whole, -, fits⟩ := Option.bind_eq_some_iff.mp value
      split at fits
      · rename_i range
        obtain rfl := Option.some.inj fits
        omega
      · cases fits

theorem ensures_fieldLabel :
    Ensures fieldLabel stream fun label next =>
      label = .none → next = stream ∧ stream.current.text ∉ labelKeywords := by
  refine ensures_accept (fun _ => ensures_pure nofun) fun noOptional => ?_
  refine ensures_accept (fun _ => ensures_pure nofun) fun noRequired => ?_
  refine ensures_accept (fun _ => ensures_pure nofun) fun noRepeated => ?_
  refine ensures_pure fun _ => ⟨rfl, ?_⟩
  simp only [labelKeywords, List.mem_cons, List.not_mem_nil, or_false, not_or]
  exact ⟨ne_of_beq_false noOptional, ne_of_beq_false noRequired, ne_of_beq_false noRepeated⟩

/-- The type of a field that is no map is the current word. -/
theorem ensures_fieldType :
    Ensures fieldType stream fun found next =>
      TokenClass.isTypeName found.1 = true ∧
      (∀ map, found.2 = some map →
        TokenClass.isIdentifier map.key = true ∧ map.value = found.1) ∧
      (found.2 = none → found.1 = stream.current.text ∧ next = stream.advance) := by
  refine ensures_acceptWordBefore ?_ fun _ => ?_
  · refine .passes fun _ _ => ?_
    refine ensures_expect.bind fun key _ keyFound => ?_
    refine .passes fun _ _ => ?_
    refine ensures_expect.bind fun value _ valueFound => ?_
    refine .passes fun _ _ => ensures_pure ⟨valueFound.1, ?_, nofun⟩
    rintro map same
    obtain rfl := Option.some.inj same
    exact ⟨keyFound.1, rfl⟩
  · refine ensures_expect.bind fun type next found => ensures_pure ?_
    obtain ⟨isName, rfl, rfl⟩ := found
    exact ⟨isName, nofun, fun _ => ⟨rfl, rfl⟩⟩

/-- Behind its label, a field obeys the rules under every label that leaves its type alone. If it is
no map, its type and its name are the next words. -/
theorem ensures_unlabelledField {label : FieldLabel} :
    Ensures (unlabelledField label) stream fun field _ =>
      field.label = label ∧
      (∀ other : FieldLabel, (other = .none → field.map = none → field.type ∉ labelKeywords) →
        { field with label := other }.Grammatical) ∧
      (field.map = none →
        field.type = stream.current.text ∧ field.name = (stream.ahead 1).text) := by
  refine ensures_seen.bind fun isGroup _ same => ?_
  subst same
  refine ensures_seen.bind fun opensBlock _ same => ?_
  subst same
  cases isGroup && opensBlock with
  | true => exact .passes fun _ _ => ensures_error rfl
  | false =>
      refine ensures_fieldType.bind fun found next ⟨isType, isMap, plain⟩ => ?_
      refine ensures_expect.bind fun name _ ⟨isName, current, _⟩ => ?_
      refine .passes fun _ _ => ?_
      refine ensures_fieldNumber.bind fun tag _ small => ?_
      refine .passes fun packed _ => .passes fun _ _ => ?_
      refine ensures_pure ⟨rfl, fun _ bare => ⟨isName, small, isType, isMap, bare⟩, fun noMap => ?_⟩
      obtain ⟨first, rfl⟩ := plain noMap
      exact ⟨first, by rw [current, TokenStream.current_advance]⟩

/-- A field obeys the rules. If it has no label and is no map, its type and its name are the first
words. -/
theorem ensures_field :
    Ensures field stream fun field _ =>
      field.Grammatical ∧ (field.label = .none → field.map = none →
        field.type = stream.current.text ∧ field.name = (stream.ahead 1).text) := by
  refine ensures_fieldLabel.bind fun label next noLabel => ?_
  refine ensures_unlabelledField.imp fun field _ ⟨same, grammatical, words⟩ => ?_
  refine ⟨grammatical field.label fun none noMap => ?_, fun none noMap => ?_⟩
  · obtain ⟨rfl, bare⟩ := noLabel (same.symm.trans none)
    rw [(words noMap).1]
    exact bare
  · obtain ⟨rfl, -⟩ := noLabel (same.symm.trans none)
    exact words noMap

/-- The fields of a group obey the rules, and none of them is read as another statement. -/
theorem ensures_oneof :
    Ensures oneof stream fun fields _ =>
      ∀ field ∈ fields, field.Grammatical ∧ field.StartsNoStatement := by
  refine .passes fun _ _ => .passes fun _ _ => ?_
  refine ensures_loop
    (fun fields => ∀ field ∈ fields, FieldDecl.Grammatical field ∧ field.StartsNoStatement)
    (fun fields stream kept => ?_) (List.forall_mem_nil _) _
  refine ensures_accept (fun _ => ensures_pure kept) fun _ => ?_
  refine ensures_accept (fun _ => ensures_pure kept) fun _ => ?_
  refine ensures_acceptWordBefore (.passes fun _ _ => ensures_pure kept) fun _ => ?_
  refine ensures_sees (fun _ => ensures_error rfl) fun _ => ?_
  refine ensures_unlabelledField.bind fun field _ ⟨_, grammatical, _⟩ => ensures_pure ?_
  refine List.forall_mem_append.mpr ⟨kept, List.forall_mem_singleton.mpr ⟨?_, nofun⟩⟩
  exact grammatical .optional nofun

/-! ### Enums, ranges and extend blocks -/

theorem ensures_enumValue :
    Ensures enumValue stream fun value _ => TokenClass.isIdentifier value.name = true := by
  refine ensures_expect.bind fun name _ found => ?_
  refine .passes fun _ _ => .passes fun token _ => ?_
  cases TokenClass.signedValue? token.text with
  | none => exact ensures_error rfl
  | some number =>
      exact .passes fun _ _ => .passes fun _ _ => .passes fun _ _ => ensures_pure found.1

theorem ensures_enum : Ensures enum stream fun enum _ => enum.Grammatical := by
  refine ensures_expect.bind fun name _ found => ?_
  refine .passes fun _ _ => ?_
  refine Ensures.bind (ensures_loop
    (fun values => ∀ value ∈ values, TokenClass.isIdentifier (EnumValueDecl.name value) = true)
    (fun values stream kept => ?_) (List.forall_mem_nil _) _) fun values _ kept => ?_
  · refine ensures_accept (fun _ => ensures_pure kept) fun _ => ?_
    refine ensures_accept (fun _ => ensures_pure kept) fun _ => ?_
    refine ensures_acceptWordBefore (.passes fun _ _ => ensures_pure kept) fun _ => ?_
    refine ensures_acceptWordBefore (.passes fun _ _ => ensures_pure kept) fun _ => ?_
    refine ensures_enumValue.bind fun value _ isName => ensures_pure ?_
    exact List.forall_mem_append.mpr ⟨kept, List.forall_mem_singleton.mpr isName⟩
  · exact ensures_pure ⟨found.1, kept⟩

theorem ensures_extendBlock : Ensures extendBlock stream fun block _ => block.Grammatical := by
  refine ensures_expect.bind fun name _ found => ?_
  refine .passes fun _ _ => ?_
  refine Ensures.bind (ensures_loop
    (fun fields => ∀ field ∈ fields, FieldDecl.Grammatical field)
    (fun fields stream kept => ?_) (List.forall_mem_nil _) _) fun fields _ kept => ?_
  · refine ensures_accept (fun _ => ensures_pure kept) fun _ => ?_
    refine ensures_accept (fun _ => ensures_pure kept) fun _ => ?_
    refine ensures_sees (fun _ => ensures_error rfl) fun _ => ?_
    refine ensures_field.bind fun field _ found => ensures_pure ?_
    exact List.forall_mem_append.mpr ⟨kept, List.forall_mem_singleton.mpr found.1⟩
  · exact ensures_pure ⟨found.1, kept⟩

theorem ensures_extensionRange :
    Ensures extensionRange stream fun range _ => range.Grammatical := by
  refine ensures_fieldNumber.bind fun start _ startSmall => ?_
  refine ensures_accept (fun _ => ?_) fun _ => ensures_pure ⟨startSmall, startSmall⟩
  have maxSmall : ProtoWire.Tag.max ≤ WordRange.maxUInt32 := by decide
  refine ensures_accept (fun _ => ensures_pure ⟨startSmall, maxSmall⟩) fun _ => ?_
  exact ensures_fieldNumber.bind fun stop _ stopSmall => ensures_pure ⟨startSmall, stopSmall⟩

theorem ensures_extensionRanges :
    Ensures extensionRanges stream fun ranges _ => ∀ range ∈ ranges, range.Grammatical := by
  refine ensures_loop (fun ranges => ∀ range ∈ ranges, ExtensionRange.Grammatical range)
    (fun ranges stream kept => ?_) (List.forall_mem_nil _) _
  refine ensures_extensionRange.bind fun range _ grammatical => ?_
  have all : ∀ other ∈ ranges ++ [range], other.Grammatical :=
    List.forall_mem_append.mpr ⟨kept, List.forall_mem_singleton.mpr grammatical⟩
  refine ensures_accept (fun _ => ensures_pure all) fun _ => ?_
  exact .passes fun _ _ => .passes fun _ _ => ensures_pure all

/-! ### Messages -/

theorem ensures_messageStatement
    {nested : Parser MessageDecl}
    (inner : ∀ stream, Ensures nested stream fun message _ => message.Grammatical)
    {message : MessageDecl}
    (grammatical : message.Grammatical) :
    Ensures (messageStatement nested message) stream fun decision _ =>
      decision.Keeps MessageDecl.Grammatical := by
  obtain ⟨name, fields, ranges, messages, enums, extensions⟩ := grammatical
  have same : MessageDecl.Grammatical message := ⟨name, fields, ranges, messages, enums, extensions⟩
  refine ensures_accept (fun _ => ensures_pure same) fun _ => ?_
  refine ensures_accept (fun _ => ensures_pure same) fun _ => ?_
  refine ensures_sees (fun _ => ensures_error rfl) fun _ => ?_
  refine ensures_acceptWordBefore ?_ fun noMessage => ?_
  · refine (inner _).bind fun read _ found =>
      ensures_pure ⟨name, fields, ranges, ?_, enums, extensions⟩
    exact List.forall_mem_append.mpr ⟨messages, List.forall_mem_singleton.mpr found⟩
  refine ensures_acceptWordBefore ?_ fun noEnum => ?_
  · refine ensures_enum.bind fun read _ found =>
      ensures_pure ⟨name, fields, ranges, messages, ?_, extensions⟩
    exact List.forall_mem_append.mpr ⟨enums, List.forall_mem_singleton.mpr found⟩
  refine ensures_acceptWordBefore ?_ fun noExtend => ?_
  · refine ensures_extendBlock.bind fun read _ found =>
      ensures_pure ⟨name, fields, ranges, messages, enums, ?_⟩
    exact List.forall_mem_append.mpr ⟨extensions, List.forall_mem_singleton.mpr found⟩
  refine ensures_acceptOneof (fun _ => ?_) ?_
  · refine ensures_oneof.bind fun read _ found =>
      ensures_pure ⟨name, ?_, ranges, messages, enums, extensions⟩
    exact List.forall_mem_append.mpr ⟨fields, found⟩
  refine ensures_acceptWordBefore ?_ fun _ => ?_
  · refine ensures_extensionRanges.bind fun read _ found =>
      ensures_pure ⟨name, fields, ?_, messages, enums, extensions⟩
    exact List.forall_mem_append.mpr ⟨ranges, found⟩
  refine ensures_acceptWordBefore (.passes fun _ _ => ensures_pure same) fun noReserved => ?_
  refine ensures_acceptWordBefore (.passes fun _ _ => ensures_pure same) fun noOption => ?_
  refine ensures_field.bind fun read _ ⟨found, words⟩ =>
    ensures_pure ⟨name, ?_, ranges, messages, enums, extensions⟩
  refine List.forall_mem_append.mpr ⟨fields, List.forall_mem_singleton.mpr ⟨found, ?_⟩⟩
  intro noLabel noMap
  obtain ⟨type, next⟩ := words noLabel noMap
  have isName : TokenClass.isIdentifier (stream.ahead 1).text = true := next ▸ found.name
  have noEquals : ((stream.ahead 1).text != "=") = true := by
    rw [bne_iff_ne]
    intro equal
    rw [equal] at isName
    cases isName
  rw [type]
  simp only [statementKeywords, List.mem_cons, List.not_mem_nil, or_false, not_or]
  refine ⟨fun word => ?_, fun word => ?_, fun word => ?_, fun word => ?_, fun word => ?_⟩
  · cases (noMessage word).symm.trans isName
  · cases (noEnum word).symm.trans isName
  · cases (noExtend word).symm.trans (isTypeName_of_isIdentifier isName)
  · cases (noReserved word).symm.trans noEquals
  · cases (noOption word).symm.trans noEquals

theorem ensures_messageWithin (levels : Nat) (stream : TokenStream) :
    Ensures (messageWithin levels) stream fun message _ => message.Grammatical := by
  induction levels generalizing stream with
  | zero => exact ensures_error rfl
  | succ levels inductionHypothesis =>
      refine ensures_expect.bind fun name _ found => ?_
      refine .passes fun _ _ => ?_
      exact ensures_loop MessageDecl.Grammatical
        (fun message stream kept => ensures_messageStatement inductionHypothesis kept)
        ⟨found.1, List.forall_mem_nil _, List.forall_mem_nil _, List.forall_mem_nil _,
          List.forall_mem_nil _, List.forall_mem_nil _⟩ _

theorem ensures_message : Ensures message stream fun message _ => message.Grammatical :=
  fun result next ok => ensures_messageWithin stream.rounds stream result next ok

/-! ### Files -/

theorem ensures_packageStatement (known : Option String) :
    Ensures (packageStatement known) stream fun package _ =>
      TokenClass.namesGoOn true package.toList = true := by
  refine ensures_expect.bind fun token _ found => ?_
  cases known with
  | some _ => exact ensures_error rfl
  | none =>
      refine .passes fun _ _ => ensures_pure ?_
      rw [String.toList_ofList]
      exact namesGoOn_dropWhile found.1

theorem ensures_fileStatement {file : FileDecl} (grammatical : file.Grammatical) :
    Ensures (fileStatement file) stream fun decision _ =>
      decision.Keeps FileDecl.Grammatical := by
  obtain ⟨package, messages, enums, extensions⟩ := grammatical
  have same : FileDecl.Grammatical file := ⟨package, messages, enums, extensions⟩
  refine ensures_accept (fun _ => ensures_pure same) fun _ => ?_
  refine ensures_accept (fun _ => ensures_pure same) fun _ => ?_
  refine ensures_accept (fun _ => ?_) fun _ => ?_
  · exact .passes fun _ _ => ensures_pure ⟨package, messages, enums, extensions⟩
  refine ensures_accept (fun _ => ?_) fun _ => ?_
  · refine (ensures_packageStatement _).bind fun name _ names =>
      ensures_pure ⟨?_, messages, enums, extensions⟩
    rintro _ ⟨⟩
    exact names
  refine ensures_accept (fun _ => ?_) fun _ => ?_
  · exact .passes fun _ _ => ensures_pure ⟨package, messages, enums, extensions⟩
  refine ensures_accept (fun _ => ?_) fun _ => ?_
  · exact .passes fun _ _ => ensures_pure same
  refine ensures_accept (fun _ => ?_) fun _ => ?_
  · refine ensures_message.bind fun read _ found => ensures_pure ⟨package, ?_, enums, extensions⟩
    exact List.forall_mem_append.mpr ⟨messages, List.forall_mem_singleton.mpr found⟩
  refine ensures_accept (fun _ => ?_) fun _ => ?_
  · refine ensures_enum.bind fun read _ found => ensures_pure ⟨package, messages, ?_, extensions⟩
    exact List.forall_mem_append.mpr ⟨enums, List.forall_mem_singleton.mpr found⟩
  refine ensures_accept (fun _ => ?_) fun _ => ?_
  · refine ensures_extendBlock.bind fun read _ found => ensures_pure ⟨package, messages, enums, ?_⟩
    exact List.forall_mem_append.mpr ⟨extensions, List.forall_mem_singleton.mpr found⟩
  refine ensures_accept (fun _ => ?_) fun _ => ensures_error rfl
  exact .passes fun _ _ => .passes fun _ _ => ensures_pure same

end Parser

/-- What tokens stand for obeys the rules. -/
theorem FileDecl.grammatical_of_ofTokens
    {tokens : List Token}
    {file : FileDecl}
    (parsed : FileDecl.ofTokens tokens = .ok file) :
    file.Grammatical := by
  cases tokens with
  | nil => cases parsed
  | cons token others =>
      have empty : FileDecl.empty.Grammatical :=
        ⟨nofun, List.forall_mem_nil _, List.forall_mem_nil _, List.forall_mem_nil _⟩
      have kept := Parser.ensures_loop FileDecl.Grammatical
        (fun file stream kept => Parser.ensures_fileStatement kept) empty ⟨token, others⟩
      obtain ⟨pair, ok, rfl⟩ := Outcome.map_eq_ok.mp parsed
      exact kept pair.1 pair.2 ok

end ProtoWire.Proto
