import ProtoWire.Proto.Declaration
import ProtoWire.Schema.Basic

/-!
Contract: what a type name means in a scope: the definition in the innermost scope
around it that has one.

Owns:
- the scopes around a scope, the innermost first;
- the resolution of absolute names, keywords and relative names.

Does not own: the definitions of a schema.
-/

namespace ProtoWire.Proto

/-- The parts of a scope in front of each point, the longest first. -/
def dottedPrefixes (scope : String) : List String :=
  let characters := scope.toList
  ((List.range characters.length).reverse.filter fun place => characters[place]? == some '.').map
    fun place => String.ofList (characters.take place)

/-- A scope and those around it, the innermost first; the last one has no name. -/
def enclosingScopes (scope : String) : List String :=
  scope :: (dottedPrefixes scope ++ [""])

/-- The type that a name means in a scope, if definitions are found by their full names. A point
in front makes a name absolute. -/
def resolveTypeBy (place? : String → Option Nat) (scope name : String) : Option TypeRef :=
  match name.toList with
  | '.' :: absolute => (place? (String.ofList absolute)).map .definition
  | _ =>
      match Scalar.ofName? name with
      | some scalar => some (.scalar scalar)
      | none =>
          (enclosingScopes scope).findSome? fun outer =>
            (place? (joinName outer name)).map .definition

/-- The type that a name means in a scope of a schema. -/
def resolveType (schema : Schema) (scope name : String) : Option TypeRef :=
  resolveTypeBy schema.indexOf? scope name

end ProtoWire.Proto
