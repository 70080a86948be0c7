import ProtoWire.Proto.Compilation
import ProtoWire.Text.JsonSkip

/-!
Contract: the options of a compilation, written as JSON.

Owns:
- the record form, in which options have names and unknown members are passed over;
- the list form, in which options have places.

Does not own: what the options do.
-/

namespace ProtoWire.Proto.CompileOptions

/-- The members of a record up to its closing brace: the value of `allow_imports`, if it is
among them, and what follows. `count` bounds the members. -/
def membersWithin : Nat → Option Bool → List Char → Option (Option Bool × List Char)
  | 0, _, _ => none
  | count + 1, known, text => do
      let body ←
        match JsonSkip.blanks text with
        | '"' :: rest => some rest
        | _ => none
      let (name, behindName) ← Quoted.decodeBody body
      let value ←
        match JsonSkip.blanks behindName with
        | ':' :: rest => some rest
        | _ => none
      let (known, behind) ←
        if name = "allow_imports".toList then
          if known.isSome then none
          else (JsonSkip.flag? (JsonSkip.blanks value)).map fun found => (some found.1, found.2)
        else (JsonSkip.value? value).map fun behind => (known, behind)
      match JsonSkip.blanks behind with
      | ',' :: rest => membersWithin count known rest
      | '\x7d' :: rest => some (known, rest)
      | _ => none

/-- A record or a list, behind its opening mark. -/
def body? : List Char → Option (Option Bool × List Char)
  | '\x7b' :: rest =>
      match JsonSkip.blanks rest with
      | '\x7d' :: behind => some (none, behind)
      | _ => membersWithin rest.length none rest
  | '[' :: rest =>
      match JsonSkip.blanks rest with
      | ']' :: behind => some (none, behind)
      | items => do
          let (flag, behind) ← JsonSkip.flag? items
          match JsonSkip.blanks behind with
          | ']' :: behind => some (some flag, behind)
          | _ => none
  | _ => none

/-- The options that a JSON text stands for. An option that is not given has its default. -/
def ofJson? (text : String) : Option CompileOptions := do
  let (flag, behind) ← body? (JsonSkip.blanks text.toList)
  if behind.all JsonSkip.isBlank then
    some ⟨flag.getD CompileOptions.default.allowImports⟩
  else none

end ProtoWire.Proto.CompileOptions
