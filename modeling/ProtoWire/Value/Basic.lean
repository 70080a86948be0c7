import ProtoWire.FieldMap
import ProtoWire.Number.FloatFormat

/-!
Contract: the values that messages are decoded to and encoded from. A value names its
own types and needs no schema.

Owns:
- the value type, its kinds, and the views of a value as each kind;
- looking into and changing arrays and objects;
- equality, which ignores the order of fields.

Does not own: which values a schema admits, or the text of a value.
-/

namespace ProtoWire

/-- A dynamic value. Floating-point numbers are kept as bit patterns. -/
inductive Value where
  | bool (flag : Bool)
  | int32 (number : Int32)
  | int64 (number : Int64)
  | uint32 (number : UInt32)
  | uint64 (number : UInt64)
  | float (bits : UInt32)
  | double (bits : UInt64)
  | string (text : String)
  | bytes (run : List UInt8)
  | array (elements : List Value)
  | enum (typeName valueName : String)
  | object (typeName : String) (fields : List (String × Value))

namespace Value

instance : Inhabited Value :=
  ⟨.bool false⟩

/-- The kind of a value, as messages name it. -/
def kindName : Value → String
  | .bool _ => "bool"
  | .int32 _ => "int32"
  | .int64 _ => "int64"
  | .uint32 _ => "uint32"
  | .uint64 _ => "uint64"
  | .float _ => "float"
  | .double _ => "double"
  | .string _ => "string"
  | .bytes _ => "bytes"
  | .array _ => "array"
  | .enum _ _ => "enum"
  | .object _ _ => "object"

/-! ### Views, with a neutral result for other kinds -/

def asBool : Value → Bool
  | .bool flag => flag
  | _ => false

def asInt32 : Value → Int32
  | .int32 number => number
  | _ => 0

def asInt64 : Value → Int64
  | .int64 number => number
  | _ => 0

def asUInt32 : Value → UInt32
  | .uint32 number => number
  | _ => 0

def asUInt64 : Value → UInt64
  | .uint64 number => number
  | _ => 0

def asFloat : Value → UInt32
  | .float bits => bits
  | _ => 0

def asDouble : Value → UInt64
  | .double bits => bits
  | _ => 0

/-- An enum shows the name of its value. -/
def asString : Value → String
  | .string text => text
  | .enum _ valueName => valueName
  | _ => ""

def asBytes : Value → List UInt8
  | .bytes run => run
  | _ => []

def asArray : Value → List Value
  | .array elements => elements
  | _ => []

def asEnum : Value → String × String
  | .enum typeName valueName => (typeName, valueName)
  | _ => ("", "")

/-! ### Arrays and objects -/

/-- The number of elements of an array. -/
def size (value : Value) : Nat :=
  value.asArray.length

def isEmpty (value : Value) : Bool :=
  value.asArray.isEmpty

/-- An element of an array. -/
def element? (value : Value) (index : Nat) : Option Value :=
  value.asArray[index]?

/-- A field of an object. -/
def field? (value : Value) (name : String) : Option Value :=
  match value with
  | .object _ fields => FieldMap.get? fields name
  | _ => none

/-- Appends to an array; other values stay as they are. -/
def push (value element : Value) : Value :=
  match value with
  | .array elements => .array (elements ++ [element])
  | other => other

/-- Sets a field of an object; other values stay as they are. -/
def setField (value : Value) (name : String) (content : Value) : Value :=
  match value with
  | .object typeName fields => .object typeName (FieldMap.insert fields name content)
  | other => other

/-- Removes a field of an object; other values stay as they are. -/
def eraseField (value : Value) (name : String) : Value :=
  match value with
  | .object typeName fields => .object typeName (FieldMap.erase fields name)
  | other => other

/-- An array of entry objects as pairs of key and value. Entries that lack either half
are left out. -/
def mapEntries (value : Value) : List (Value × Value) :=
  value.asArray.filterMap fun entry => do
    let key ← entry.field? "key"
    let content ← entry.field? "value"
    pure (key, content)

/-! ### Equality -/

mutual

/-- Equality of values. Floating-point numbers are compared as numbers, and objects
without regard to the order of their fields. -/
def equal : Value → Value → Bool
  | .bool left, .bool right => left == right
  | .int32 left, .int32 right => left == right
  | .int64 left, .int64 right => left == right
  | .uint32 left, .uint32 right => left == right
  | .uint64 left, .uint64 right => left == right
  | .float left, .float right => FloatFormat.single.equal left.toNat right.toNat
  | .double left, .double right => FloatFormat.double.equal left.toNat right.toNat
  | .string left, .string right => left == right
  | .bytes left, .bytes right => left == right
  | .array left, .array right => equalElements left right
  | .enum leftType left, .enum rightType right => leftType == rightType && left == right
  | .object leftType left, .object rightType right =>
      leftType == rightType && left.length == right.length && equalFields left right
  | _, _ => false

def equalElements : List Value → List Value → Bool
  | [], [] => true
  | left :: lefts, right :: rights => left.equal right && equalElements lefts rights
  | _, _ => false

/-- Whether each field on the left has an equal field of its name on the right. -/
def equalFields : List (String × Value) → List (String × Value) → Bool
  | [], _ => true
  | (name, left) :: lefts, rights =>
      (match FieldMap.get? rights name with
        | some right => left.equal right
        | none => false) && equalFields lefts rights

end

instance : BEq Value :=
  ⟨equal⟩

/-! ### Height -/

mutual

/-- How many arrays and objects lie above the deepest leaf. -/
def height : Value → Nat
  | .array elements => 1 + heightOfElements elements
  | .object _ fields => 1 + heightOfFields fields
  | _ => 0

def heightOfElements : List Value → Nat
  | [] => 0
  | element :: others => max element.height (heightOfElements others)

def heightOfFields : List (String × Value) → Nat
  | [] => 0
  | (_, content) :: others => max content.height (heightOfFields others)

end

end Value

namespace FieldMap

/-- The array under a name; empty where there is none. -/
def elements (fields : FieldMap Value) (name : String) : List Value :=
  ((get? fields name).map Value.asArray).getD []

/-- Extends the array under a name. An entry that is no array is replaced by one. -/
def extend (fields : FieldMap Value) (name : String) (added : List Value) : FieldMap Value :=
  insert fields name (.array (elements fields name ++ added))

/-- Equality of maps without regard to the order of their entries. -/
def equal (left right : FieldMap Value) : Bool :=
  left.length == right.length && Value.equalFields left right

end FieldMap

end ProtoWire
