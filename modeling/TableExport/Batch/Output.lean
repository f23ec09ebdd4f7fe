import TableExport.Batch.Summary
import TableExport.Files.Workspace

/-!
# Output files

A file is only written when its content changes.

* `Workspace.update` writes a file and the folders it lies in.
-/

namespace TableExport

/-- Why a file cannot be written. -/
inductive OutputError
  /-- A folder cannot be made. -/
  | folder (path : String)
  | file (path : String)
  deriving DecidableEq

/-- What is said about an error. -/
def OutputError.message : OutputError → String
  | .folder path => "Cannot create directory '" ++ path ++ "'"
  | .file path => "Cannot write '" ++ path ++ "'"

/-- Gives a file a content, unless it has that content already. Folders that were made stay when the
file cannot be written. -/
def Workspace.update (workspace : Workspace) (path text : String) :
    Except OutputError WriteStatus × Workspace :=
  let content := text.toUTF8
  if workspace.read? path == some content then (.ok .skipped, workspace)
  else
    let made := match Path.parent? path with
      | some parent =>
        let (workspace, made) := workspace.makeFolders parent
        (workspace, if made then none else some (.folder parent))
      | none => (workspace, none)
    match made with
    | (workspace, some error) => (.error error, workspace)
    | (workspace, none) =>
      match workspace.write? path content with
      | some workspace => (.ok .written, workspace)
      | none => (.error (.file path), workspace)

end TableExport
