import ProtoWire.Number.FloatText
import ProtoWire.Text.Escaped
import ProtoWire.Value.Basic

/-!
Contract: the text that shows a value to a human reader.

Owns:
- the text of each kind of value and of a map of fields.

Does not own: the text of floating-point numbers and of quoted strings.
-/

namespace ProtoWire

namespace Value

/-- Two digits for each byte, between angle brackets. -/
def bytesText (run : List UInt8) : String :=
  "<" ++ " ".intercalate (run.map fun byte => String.ofList (Hex.fixed 2 byte.toNat)) ++ ">"

mutual

/-- The text of a value. -/
def text : Value → String
  | .bool flag => if flag then "true" else "false"
  | .int32 number => toString number.toInt
  | .int64 number => toString number.toInt
  | .uint32 number => toString number.toNat
  | .uint64 number => toString number.toNat
  | .float bits => FloatFormat.single.text bits.toNat
  | .double bits => FloatFormat.double.text bits.toNat
  | .string content => Escaped.quote content
  | .bytes run => bytesText run
  | .array elements => "[" ++ ", ".intercalate (textOfElements elements) ++ "]"
  | .enum typeName valueName => typeName ++ "::" ++ valueName
  | .object typeName fields =>
      typeName ++ " \x7b" ++ ", ".intercalate (textOfFields fields) ++ "\x7d"

def textOfElements : List Value → List String
  | [] => []
  | element :: others => element.text :: textOfElements others

def textOfFields : List (String × Value) → List String
  | [] => []
  | (name, content) :: others => (name ++ ": " ++ content.text) :: textOfFields others

end

end Value

/-- The text of a map, with quoted names. -/
def FieldMap.text (fields : FieldMap Value) : String :=
  let entries := fields.map fun entry => Escaped.quote entry.1 ++ ": " ++ entry.2.text
  "\x7b" ++ ", ".intercalate entries ++ "\x7d"

end ProtoWire
