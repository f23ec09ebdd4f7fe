import TableExport.Cli.Run

/-!
# The command line

The files of a run lie below the working folder. They are read before the run, and what the run
changed is written after it.
-/

namespace TableExport

/-- The usage of the program. -/
def usage : String :=
  "Exports spreadsheet tables to JSON and writes the declarations of their schemas.\n\n" ++
  "Usage: table-export <COMMAND> <CONFIG>\n\n" ++
  "Commands:\n" ++
  "  data  Export every workbook to JSON\n" ++
  "  code  Write the declarations of the schema documents\n" ++
  "  all   Export data, then write declarations"

/-- The files and folders below the working folder. -/
def loadWorkspace : IO Workspace := do
  let folder ← IO.currentDir
  let root := toString folder
  let mut workspace : Workspace := { root }
  for path in ← folder.walkDir do
    let location := (Path.pieces (toString path)).drop (Path.pieces root).length
    if ← path.isDir then
      workspace := { workspace with folders := location :: workspace.folders }
    else
      let content ← IO.FS.readBinFile path
      workspace := { workspace with files := (location, content) :: workspace.files }
  return workspace

/-- Writes the folders and files in which a workspace differs from the one before. -/
def saveWorkspace (before after : Workspace) : IO Unit := do
  let path (location : Location) : String := location.foldl Path.join after.root
  for location in after.folders do
    unless before.folders.contains location do
      IO.FS.createDirAll (path location)
  for (location, content) in after.files do
    unless before.contentAt? location == some content do
      IO.FS.writeBinFile (path location) content

end TableExport

open TableExport in
/-- Runs the program. -/
def main (arguments : List String) : IO UInt32 := do
  let invocation := Invocation.ofArguments arguments
  match invocation with
  | .run .. =>
    let before ← loadWorkspace
    let (outcome, after) := invocation.perform before
    saveWorkspace before after
    for line in outcome.errors do
      IO.eprintln line
    return outcome.status.toUInt32
  | .help =>
    IO.println usage
    return 0
  | .misuse =>
    IO.eprintln usage
    return Outcome.misuse.status.toUInt32
