import ProtoWire.Proto.Lowering

/-!
Contract: where messages and extend blocks stand in a file. A message stands at the top level or
inside of another message, at any depth, and an extend block at the top level or in a message. What
goes through a file in order visits all of them, and nothing else.

Owns:
- the messages and the extend blocks of a file, said without an order;
- the lists of them, in the order in which they are visited.

Does not own: what is done with a message or with a block.
-/

namespace ProtoWire.Proto

/-- A message stands under a full name in a scope: it is one of the messages of the scope, or it
stands inside of one of them. -/
inductive StandsIn : String → List MessageDecl → String × MessageDecl → Prop where
  | here {scope : String} {messages : List MessageDecl} {message : MessageDecl}
      (member : message ∈ messages) :
      StandsIn scope messages (joinName scope message.name, message)
  | inside {scope : String} {messages : List MessageDecl} {outer : MessageDecl}
      {named : String × MessageDecl}
      (member : outer ∈ messages)
      (deeper : StandsIn (joinName scope outer.name) outer.messages named) :
      StandsIn scope messages named

/-- An extend block stands in a file, at the top level or in a message. Its scope is the package or
the full name of the message. -/
def FileDecl.Holds (file : FileDecl) (block : String × ExtendDecl) : Prop :=
  (block.1 = file.scope ∧ block.2 ∈ file.extensions) ∨
    ∃ message, StandsIn file.scope file.messages (block.1, message) ∧ block.2 ∈ message.extensions

theorem MessageDecl.withNames_eq (scope : String) (message : MessageDecl) :
    message.withNames scope =
      (joinName scope message.name, message) ::
        messagesWithNames (joinName scope message.name) message.messages := by
  obtain ⟨name, position, fields, messages, enums, extensions, ranges⟩ := message
  rw [MessageDecl.withNames]

theorem messagesWithNames_eq (scope : String) (messages : List MessageDecl) :
    messagesWithNames scope messages = messages.flatMap (MessageDecl.withNames scope) := by
  induction messages with
  | nil => rfl
  | cons message others inductionHypothesis =>
      rw [messagesWithNames, inductionHypothesis, List.flatMap_cons]

mutual

private theorem standsIn_of_mem_withNames {named : String × MessageDecl} :
    ∀ (scope : String) (message : MessageDecl), named ∈ message.withNames scope →
      StandsIn scope [message] named
  | scope, ⟨name, position, fields, messages, enums, extensions, ranges⟩, member => by
      rw [MessageDecl.withNames_eq] at member
      rcases List.mem_cons.mp member with rfl | deeper
      · exact .here List.mem_cons_self
      · exact .inside List.mem_cons_self
          (standsIn_of_mem_messagesWithNames (joinName scope name) messages deeper)

private theorem standsIn_of_mem_messagesWithNames {named : String × MessageDecl} :
    ∀ (scope : String) (messages : List MessageDecl), named ∈ messagesWithNames scope messages →
      StandsIn scope messages named
  | scope, [], member => nomatch member
  | scope, message :: others, member => by
      rw [messagesWithNames] at member
      rcases List.mem_append.mp member with first | later
      · cases standsIn_of_mem_withNames scope message first with
        | here single =>
            obtain rfl := List.mem_singleton.mp single
            exact .here List.mem_cons_self
        | inside single deeper =>
            obtain rfl := List.mem_singleton.mp single
            exact .inside List.mem_cons_self deeper
      · cases standsIn_of_mem_messagesWithNames scope others later with
        | here among => exact .here (List.mem_cons_of_mem message among)
        | inside among deeper => exact .inside (List.mem_cons_of_mem message among) deeper

end

/-- The messages with full names are those that stand in the scope. -/
theorem mem_messagesWithNames
    {scope : String}
    {messages : List MessageDecl}
    {named : String × MessageDecl} :
    named ∈ messagesWithNames scope messages ↔ StandsIn scope messages named := by
  refine ⟨standsIn_of_mem_messagesWithNames scope messages, fun stands => ?_⟩
  induction stands with
  | here member =>
      rw [messagesWithNames_eq, List.mem_flatMap]
      exact ⟨_, member, by rw [MessageDecl.withNames_eq]; exact List.mem_cons_self⟩
  | inside member deeper inductionHypothesis =>
      rw [messagesWithNames_eq, List.mem_flatMap]
      refine ⟨_, member, ?_⟩
      rw [MessageDecl.withNames_eq]
      exact List.mem_cons_of_mem _ inductionHypothesis

/-- The extend blocks of a file with their scopes are those that stand in the file. -/
theorem FileDecl.mem_extensionBlocks {file : FileDecl} {block : String × ExtendDecl} :
    block ∈ file.extensionBlocks ↔ file.Holds block := by
  obtain ⟨scope, extension⟩ := block
  unfold FileDecl.extensionBlocks FileDecl.Holds FileDecl.messagesWithNames
  simp only [List.mem_append, List.mem_map, List.mem_flatMap, mem_messagesWithNames, Prod.mk.injEq,
    Prod.exists]
  constructor
  · rintro (⟨_, member, rfl, rfl⟩ | ⟨_, message, stands, _, member, rfl, rfl⟩)
    · exact .inl ⟨rfl, member⟩
    · exact .inr ⟨message, stands, member⟩
  · rintro (⟨rfl, member⟩ | ⟨message, stands, member⟩)
    · exact .inl ⟨extension, member, rfl, rfl⟩
    · exact .inr ⟨scope, message, stands, extension, member, rfl, rfl⟩

end ProtoWire.Proto
