import TableExport.Files.Workspace
import TableExport.Json.Reader
import TableExport.Schema.Documents

/-!
# Folders of schemas

The schema documents of a run are the files of a folder, each with the name of its file.

* `Workspace.schema` reads a document of a folder and checks its shape.
* `Workspace.library` is the library of a folder.
-/

namespace TableExport.Workspace

/-- The schema document with a name in a folder. -/
def schema (workspace : Workspace) (folder name : String) : Except SchemaError Json :=
  match (workspace.readText? (Path.join folder name)).bind Json.read? with
  | none => .error (.unreadable name)
  | some document => (Shape.check name document).map fun _ => document

/-- The library of the documents of a folder. Its bound is good for nodes with at most `size`
nodes. -/
def library (workspace : Workspace) (folder : String) (known : Documents) (size : Nat) :
    Library Session :=
  Documents.library (workspace.schema folder)
    (Library.boundFor (workspace.size + known.size + size))

end TableExport.Workspace
