/-!
Contract: the files below a directory, and where a path leads that starts in it.

Owns:
- the steps of a path;
- following a path from the directory to a file.

Does not own: what the files hold, or anything outside of the directory.
-/

namespace ProtoWire

/-- The names on the way to a file. -/
abbrev Path : Type :=
  List String

/-- The names that slashes part. -/
def Path.ofText (text : String) : Path :=
  (text.toList.splitOn '/').map String.ofList

/-- What one step of a path does. -/
inductive PathStep where
  /-- The step leads to where it starts. -/
  | stay
  /-- The step leaves a directory for the one around it. -/
  | leave
  | enter (name : String)
deriving DecidableEq, Repr

namespace PathStep

/-- Nothing and a single point stay, two points leave, and all else is a name. -/
def ofText (text : String) : PathStep :=
  if text = "" ∨ text = "." then .stay
  else if text = ".." then .leave
  else .enter text

/-- The steps of a path, which slashes part. -/
def ofPath (path : String) : List PathStep :=
  (Path.ofText path).map ofText

end PathStep

/-- Files by the names on the way to them. -/
structure Directory where
  files : List (Path × List UInt8)
deriving DecidableEq, Repr

namespace Directory

/-- The files with some names, in which slashes part directories. -/
def ofList (files : List (String × List UInt8)) : Directory :=
  ⟨files.map fun file => (Path.ofText file.1, file.2)⟩

/-- The content of a file. -/
def file? (directory : Directory) (place : Path) : Option (List UInt8) :=
  (directory.files.find? fun file => file.1 == place).map Prod.snd

/-- Whether there is a file below a place. -/
def hasBelow (directory : Directory) (place : Path) : Bool :=
  directory.files.any fun file => place.isPrefixOf file.1 && place != file.1

/-- The content of the file to which some steps lead from a place. Only the last step leads to
a file: what is left by two points, or followed by a slash, has to be a directory. -/
def follow (directory : Directory) : Path → List PathStep → Option (List UInt8)
  | _, [] => none
  | place, .stay :: steps => directory.follow place steps
  | [], .leave :: _ => none
  | name :: names, .leave :: steps => directory.follow (name :: names).dropLast steps
  | place, .enter name :: [] => directory.file? (place ++ [name])
  | place, .enter name :: steps =>
      if directory.hasBelow (place ++ [name]) then directory.follow (place ++ [name]) steps
      else none

/-- The content of the file to which a path leads. Paths from the root lead outside. -/
def read? (directory : Directory) (path : String) : Option (List UInt8) :=
  if path.toList.head? = some '/' then none else directory.follow [] (PathStep.ofPath path)

end Directory

end ProtoWire
