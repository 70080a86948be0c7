import ProtoWire.Proofs.Proto.Lawfulness

/-!
Contract: what the checks leave true of the messages and enums of a legal file, in the form in which
compilation needs it: messages go by their full names, and a message gets no more than one field
under a number or a name.

Owns:
- unique field numbers and names of messages, and unique names of enum values;
- legal field numbers and extension ranges.

Does not own: the rules themselves, or what declarations compile to.
-/

namespace ProtoWire.Proto

open Outcome

/-- What the checks leave true of a message, apart from the messages inside of it. -/
structure MessageDecl.Legal (message : MessageDecl) : Prop where
  tags : (message.fields.map FieldDecl.tag).Nodup
  names : (message.fields.map FieldDecl.name).Nodup
  bounds : ∀ field ∈ message.fields,
    ProtoWire.Tag.min ≤ field.tag ∧ field.tag ≤ ProtoWire.Tag.max
  ranges : ∀ range ∈ message.ranges,
    ProtoWire.Tag.min ≤ range.start ∧ range.stop ≤ ProtoWire.Tag.max
  enums : ∀ enum ∈ message.enums, (enum.values.map EnumValueDecl.name).Nodup

theorem MessageDecl.Lawful.legal
    {edition : Edition}
    {message : MessageDecl}
    (lawful : message.Lawful edition) :
    message.Legal where
  tags := lawful.tags
  names := lawful.names
  bounds field member :=
    ⟨(lawful.fields field member).positive, (lawful.fields field member).bounded⟩
  ranges range member :=
    ⟨(lawful.ranges range member).positive, (lawful.ranges range member).bounded⟩
  enums enum member := (lawful.enums enum member).names

/-- Every message of a legal file passes the checks. -/
theorem FileDecl.legal_messages {file : FileDecl} (checked : file.check = .ok ()) :
    ∀ named ∈ file.messagesWithNames, named.2.Legal := by
  intro named member
  have lawful := (checkMessages_eq_ok file.scope file.messages).mp (check_then.mp checked).1
  exact (lawful named member).legal

theorem FileDecl.distinct_enums {file : FileDecl} (checked : file.check = .ok ()) :
    ∀ enum ∈ file.enums, (enum.values.map EnumValueDecl.name).Nodup := by
  obtain ⟨-, checked⟩ := check_then.mp checked
  intro enum member
  have passed := forM_eq_ok.mp (check_then.mp checked).1 enum member
  exact (EnumDecl.check_eq_ok.mp passed).names

end ProtoWire.Proto
