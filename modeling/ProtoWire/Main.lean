import ProtoWire.CommandLine

/-!
Contract: the command line program.

Owns:
- reading the files that a command names, printing, and the exit codes.

Does not own: what commands do.
-/

open ProtoWire

/-- The content of a file, if it can be read. -/
def readFile? (path : String) : IO (Option (List UInt8)) := do
  try
    let content ← IO.FS.readBinFile path
    pure (some content.data.toList)
  catch _ => pure none

/-- Exit code 2 reports a misused command line, and exit code 1 a failed command. -/
def main (words : List String) : IO UInt32 := do
  match CommandLine.parse? words with
  | none =>
      IO.eprintln "usage: check | describe | decode, each with --input FILE..."
      pure 2
  | some command => do
      let contents ← command.paths.mapM fun path => do pure (path, ← readFile? path)
      let files : CommandLine.Files := fun path =>
        (contents.find? fun entry => entry.1 == path).bind Prod.snd
      match CommandLine.run files command with
      | .error failure =>
          IO.eprintln ("Error: " ++ failure.message)
          pure 1
      | .ok printed =>
          IO.print printed.result
          IO.eprint printed.remark
          pure 0
