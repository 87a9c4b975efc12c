/-
# The program

Reads the files below the working directory, runs the command line on them, and prints what it
leaves behind.

Key definitions: `snapshot`, `main`.
-/
import Countersign.Cli

namespace Countersign

/-- The file or directory of an entry, with everything below it. -/
partial def snapshot (entry : IO.FS.DirEntry) : IO FileTree := do
  if ← entry.path.isDir then
    let entries ← entry.path.readDir
    return .directory (← entries.toList.mapM fun e => do return (e.fileName, ← snapshot e))
  else
    return .file (← IO.FS.readBinFile entry.path)

end Countersign

open Countersign in
/-- Runs the command line in the working directory. -/
def main (args : List String) : IO UInt32 := do
  let entries ← (← IO.currentDir).readDir
  let tree := FileTree.directory
    (← entries.toList.mapM fun e => do return (e.fileName, ← snapshot e))
  let output := Cli.runArgs tree args
  IO.print output.stdout
  IO.eprint output.stderr
  return output.exitCode.toUInt32
