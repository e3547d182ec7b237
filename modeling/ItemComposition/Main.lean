import ItemComposition.CommandLine.Wanted

/-!
# The program

Reads the files that a command asks for, runs the command, and prints what it says.
-/

namespace ItemComposition.CommandLine

/-- Seconds since 1970. -/
def currentSeconds : IO Int := do
  let path ← IO.FS.realPath "/proc/self/stat"
  return (← path.metadata).modified.sec

/-- The environment variables. -/
def currentVariables : IO (Dict String) := do
  let bytes ← IO.FS.readBinFile "/proc/self/environ"
  return variablesOf ((Text.decode? bytes.toList).getD "")

/-- Adds what is at a path: a file, or a directory with the names in it. -/
def addPath (files : FileTree) (path : String) : IO FileTree := do
  try
    let bytes ← IO.FS.readBinFile path
    return files.put path (.file bytes.toList) 0
  catch _ =>
    -- what cannot be read as a file may be a directory, whose entries are names without contents
    try
      let place ← IO.FS.realPath path
      let entries ← place.readDir
      let files := files.put path .directory 0
      return entries.foldl
        (fun files e => files.put (FilePath.below path e.fileName) (.link "/unread") 0) files
    catch _ => return files

/-- Adds what a command wants to read, until it wants nothing new. -/
partial def gather (c : Circumstances) (arguments asked : List String) : IO Circumstances := do
  match (wanted c arguments).filter fun path => !asked.contains path with
  | [] => return c
  | paths =>
    let mut files := c.files
    for path in paths do
      files ← addPath (files.remove path) path
    gather { c with files } arguments (asked ++ paths)

end ItemComposition.CommandLine

/-- Runs the command line. -/
def main (arguments : List String) : IO UInt32 := do
  let files := ItemComposition.FileTree.empty ["work"]
  let environment ← ItemComposition.CommandLine.currentVariables
  let time ← ItemComposition.CommandLine.currentSeconds
  let c ← ItemComposition.CommandLine.gather ⟨files, environment, time⟩ arguments []
  let outcome := ItemComposition.CommandLine.run c arguments
  IO.print outcome.output
  IO.eprint outcome.complaint
  return outcome.code.toUInt32
