import ServiceGraph.Command.Run

/-!
# The command line

The files below the current directory are read, the command is carried out on them, and what it
changed is written back.
-/

namespace ServiceGraph.CommandLine

/-- read what is below an entry of a directory, and the entry itself -/
partial def gather (around : Place) (found : List (Place × Entry)) (e : IO.FS.DirEntry) :
    IO (List (Place × Entry)) := do
  let place := e.fileName :: around
  if ← e.path.isDir then
    (← e.path.readDir).foldlM (gather place) ((place, .directory) :: found)
  else
    return (place, .file (← IO.FS.readBinFile e.path).data.toList) :: found

def currentFiles : IO Files := do
  let directory ← IO.currentDir
  let files := Files.emptyAt (Path.ofText directory.toString).names.reverse
  let found ← (← directory.readDir).foldlM (gather files.here) []
  return { files with entries := files.entries ++ found }

def writeChanges (before after : Files) : IO Unit := do
  for (place, entry) in after.entries do
    unless before.entry? place = some entry do
      match entry with
      | .directory => IO.FS.createDirAll place.path
      | .file content =>
        IO.FS.createDirAll (Place.path place.tail)
        IO.FS.writeBinFile place.path ⟨content.toArray⟩

def usage : String :=
  "usage: kiln init [DIR] | validate [-f FILE] | services [-f FILE] [-t TAG] [--json] | " ++
  "compile [-f FILE] [--cache-dir DIR [--force]] | commands [-f FILE]"

end ServiceGraph.CommandLine

open ServiceGraph CommandLine in
def main (arguments : List String) : IO UInt32 := do
  match Command.ofArguments? arguments with
  | none =>
    IO.eprintln usage
    return 2
  | some command =>
    let before ← currentFiles
    let (output, after) := command.run before
    writeChanges before after
    IO.print output.told
    IO.eprint output.warned
    match output.error with
    | none => return 0
    | some error =>
      IO.eprintln ("error: " ++ error)
      return 1
