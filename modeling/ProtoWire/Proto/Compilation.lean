import ProtoWire.Proto.Grammar
import ProtoWire.Proto.Legality
import ProtoWire.Proto.Lowering

/-!
Contract: the schema of several sources. All types are declared before any field is
resolved, and extensions are added last, so that sources refer to each other freely.

Owns:
- the order of the passes;
- what is done about imports.

Does not own: the passes themselves.
-/

namespace ProtoWire.Proto

/-- The choices that a compilation leaves open. -/
structure CompileOptions where
  /-- Sources may import others, which then have to be among the sources. -/
  allowImports : Bool
deriving DecidableEq, Repr

def CompileOptions.default : CompileOptions :=
  ⟨false⟩

/-- The file that a source text stands for, which need not be legal. -/
def FileDecl.read (text : String) : Except SourceError FileDecl :=
  (FileDecl.parse text).mapError .syntactic

/-- The legal file that a source text stands for. -/
def FileDecl.readLegal (text : String) : Except SourceError FileDecl := do
  let file ← FileDecl.read text
  file.check
  pure file

/-- The schema of some files. -/
def compileFiles (files : List FileDecl) : Except SourceError Schema := do
  files.forM FileDecl.check
  let declared ← (files.flatMap FileDecl.definitions).foldlM declare .empty
  let defined ← files.foldlM defineFile declared
  match (files.forM mergeFile : Merge) defined with
  | .ok _ schema => .ok schema
  | .error cause _ => .error cause

/-- The schema of some source texts. -/
def compileSources (options : CompileOptions) (sources : List String) :
    Except SourceError Schema := do
  let files ← sources.mapM FileDecl.readLegal
  let imports := files.flatMap FileDecl.imports
  if !options.allowImports && !imports.isEmpty then throw (.unresolvedImports imports)
  compileFiles files

end ProtoWire.Proto
