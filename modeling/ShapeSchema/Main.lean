import ShapeSchema.Runner.CommandLine

/-!
# The program

Takes a snapshot of the directory in which it is started, runs the fixtures on it, and prints what
the run leaves behind. All decisions are made by `ShapeSchema.Runner.program`.
-/

namespace ShapeSchema.Runner

/-- The files of a directory, and of those in it. What is neither a file nor a directory is passed
over. -/
partial def snapshot (entries : Array IO.FS.DirEntry) : IO Files := do
  let mut files : Files := []
  for entry in entries do
    let info ← entry.path.metadata
    match info.type with
    | .dir => files := files ++ [(entry.fileName, .directory (← snapshot (← entry.path.readDir)))]
    | .file =>
      let content ← IO.FS.readBinFile entry.path
      files := files ++ [(entry.fileName, .file content.data.toList)]
    | _ => pure ()
  return files

end ShapeSchema.Runner

/-- Run with these arguments in the current directory. -/
def main (arguments : List String) : IO UInt32 := do
  let directory ← IO.currentDir
  let outcome := ShapeSchema.Runner.program
    (← ShapeSchema.Runner.snapshot (← directory.readDir)) arguments
  IO.print outcome.output
  IO.eprint outcome.errors
  return UInt32.ofNat outcome.status
