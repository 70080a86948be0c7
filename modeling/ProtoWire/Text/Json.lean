import ProtoWire.Text.Quoted

/-!
Contract: JSON documents, laid out with two spaces for each level.

Owns:
- the document type;
- its text.

Does not own: reading JSON, or what a document describes.
-/

namespace ProtoWire

/-- A JSON document. Members keep their order. -/
inductive Json where
  | null
  | flag (value : Bool)
  | number (value : Int)
  | text (value : String)
  | list (items : List Json)
  | record (members : List (String × Json))

namespace Json

/-- A line break and the indentation of a level. -/
def newLine (level : Nat) : String :=
  String.ofList ('\n' :: List.replicate (2 * level) ' ')

mutual

/-- The text of a document that stands on a level. -/
def layout (level : Nat) : Json → String
  | .null => "null"
  | .flag value => if value then "true" else "false"
  | .number value => toString value
  | .text value => Quoted.quote value
  | .list [] => "[]"
  | .list items =>
      let lines := layoutItems (level + 1) items
      "[" ++ newLine (level + 1) ++ ("," ++ newLine (level + 1)).intercalate lines ++
        newLine level ++ "]"
  | .record [] => "\x7b\x7d"
  | .record members =>
      let lines := layoutMembers (level + 1) members
      "\x7b" ++ newLine (level + 1) ++ ("," ++ newLine (level + 1)).intercalate lines ++
        newLine level ++ "\x7d"

def layoutItems (level : Nat) : List Json → List String
  | [] => []
  | item :: items => layout level item :: layoutItems level items

def layoutMembers (level : Nat) : List (String × Json) → List String
  | [] => []
  | (name, value) :: members =>
      (Quoted.quote name ++ ": " ++ layout level value) :: layoutMembers level members

end

/-- The text of a document. -/
def pretty (document : Json) : String :=
  layout 0 document

end Json

end ProtoWire
