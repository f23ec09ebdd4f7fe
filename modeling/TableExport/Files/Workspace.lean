import TableExport.Files.Path

/-!
# Workspaces

The files that a run sees are a value: a tree of folders with its root at a path. A path is followed
part by part, and each part but the last must be a folder.

* `Workspace.locate?` finds what a path leads to.
* `Workspace.read?` is the content of a file.
* `Workspace.makeFolders`, `Workspace.write?` and `Workspace.remove` change the tree.
-/

namespace TableExport

/-- The names that lead from the root to a file or folder. -/
abbrev Location := List String

/-- A tree of files. -/
structure Workspace where
  /-- The path of the root. -/
  root : String
  files : List (Location × ByteArray) := []
  /-- The folders besides the root. -/
  folders : List Location := []

namespace Workspace

/-- The parts of a path after the root of the workspace; none when it leads elsewhere. A relative
path starts at the root. -/
def partsOf? (workspace : Workspace) (path : String) : Option (List String) :=
  let root := workspace.root.toList
  let text := path.toList
  if root.isPrefixOf text && !root.isEmpty then
    match text.drop root.length with
    | [] => some []
    | '/' :: rest => some ((Pointer.splitAt '/' rest).map String.ofList)
    | _ => if Path.isAbsolute path then none else some (Path.pieces path)
  else if Path.isAbsolute path then none
  else some (Path.pieces path)

/-- Whether a folder is at a location. -/
def isFolderAt (workspace : Workspace) (location : Location) : Bool :=
  location.isEmpty || workspace.folders.contains location

/-- The content of the file at a location. -/
def contentAt? (workspace : Workspace) (location : Location) : Option ByteArray :=
  (workspace.files.find? (·.1 == location)).map Prod.snd

/-- Whether a file or folder is at a location. -/
def existsAt (workspace : Workspace) (location : Location) : Bool :=
  workspace.isFolderAt location || (workspace.contentAt? location).isSome

/-- Follows the parts of a path from a location. -/
def walk (workspace : Workspace) : Location → List String → Option Location
  | location, [] => some location
  | location, part :: rest =>
    if !workspace.isFolderAt location then none
    else if part.isEmpty || part == "." then walk workspace location rest
    else if part == ".." then
      if location.isEmpty then none else walk workspace location.dropLast rest
    else
      let next := location ++ [part]
      if workspace.existsAt next then walk workspace next rest else none

/-- What a path leads to. The empty path leads nowhere. -/
def locate? (workspace : Workspace) (path : String) : Option Location :=
  if path.isEmpty then none else (workspace.partsOf? path).bind (workspace.walk [])

/-- Whether a path leads to a folder. -/
def isFolder (workspace : Workspace) (path : String) : Bool :=
  ((workspace.locate? path).map workspace.isFolderAt).getD false

/-- The content of the file that a path leads to. -/
def read? (workspace : Workspace) (path : String) : Option ByteArray :=
  (workspace.locate? path).bind workspace.contentAt?

/-- Whether a path leads to a file. -/
def isFile (workspace : Workspace) (path : String) : Bool := (workspace.read? path).isSome

/-- The text of the file that a path leads to. -/
def readText? (workspace : Workspace) (path : String) : Option String :=
  (workspace.read? path).bind String.fromUTF8?

/-- The names of the files and folders in a folder. -/
def namesIn (workspace : Workspace) (location : Location) : List String :=
  (workspace.files.map Prod.fst ++ workspace.folders).filterMap fun other =>
    if other.length = location.length + 1 ∧ location.isPrefixOf other then other.getLast? else none

/-- The locations below a folder, relative to it. -/
def below (workspace : Workspace) (location : Location) : List Location :=
  (workspace.files.map Prod.fst ++ workspace.folders).filterMap fun other =>
    if location.length < other.length ∧ location.isPrefixOf other then
      some (other.drop location.length)
    else none

/-- Whether a file system takes a name. -/
def isValidName (name : String) : Bool := name.utf8ByteSize ≤ 255 && !name.toList.contains '\x00'

/-- Makes the folders along some parts that are missing. The flag says whether all parts lead
through folders; the folders made before a failure stay. -/
def makeAlong (workspace : Workspace) : Location → List String → Workspace × Bool
  | _, [] => (workspace, true)
  | location, part :: rest =>
    if part.isEmpty || part == "." then makeAlong workspace location rest
    else if part == ".." then
      if location.isEmpty then (workspace, false)
      else makeAlong workspace location.dropLast rest
    else
      let next := location ++ [part]
      if workspace.isFolderAt next then makeAlong workspace next rest
      else if (workspace.contentAt? next).isSome || !isValidName part then (workspace, false)
      else makeAlong { workspace with folders := workspace.folders ++ [next] } next rest

/-- Makes the folders of a path that are missing. -/
def makeFolders (workspace : Workspace) (path : String) : Workspace × Bool :=
  match workspace.partsOf? path with
  | some parts => workspace.makeAlong [] parts
  | none => (workspace, false)

/-- Puts a content at a location. -/
def putAt (workspace : Workspace) (location : Location) (content : ByteArray) : Workspace :=
  if (workspace.contentAt? location).isSome then
    { workspace with
      files := workspace.files.map fun file =>
        if file.1 == location then (location, content) else file }
  else { workspace with files := workspace.files ++ [(location, content)] }

/-- Writes a file into a folder that is there. -/
def write? (workspace : Workspace) (path : String) (content : ByteArray) : Option Workspace := do
  let parts ← workspace.partsOf? path
  let name ← parts.getLast?
  if name.isEmpty || name == "." || name == ".." || !isValidName name then none
  else
    let folder ← workspace.walk [] parts.dropLast
    let location := folder ++ [name]
    if !workspace.isFolderAt folder || workspace.isFolderAt location then none
    else some (workspace.putAt location content)

/-- Removes what a path leads to, and all below it. -/
def remove (workspace : Workspace) (path : String) : Workspace :=
  match workspace.locate? path with
  | some location =>
    { workspace with
      files := workspace.files.filter fun file => !location.isPrefixOf file.1
      folders := workspace.folders.filter fun folder => !location.isPrefixOf folder }
  | none => workspace

/-- The number of bytes of all files. -/
def size (workspace : Workspace) : Nat :=
  workspace.files.foldl (fun total file => total + file.2.size) 0

end Workspace

end TableExport
