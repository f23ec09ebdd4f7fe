import TableExport.Files.Wildcard
import TableExport.Files.Workspace

/-!
# Searching files

A search starts at a folder and follows a pattern part by part. A part is a name, a wildcard for a
name, or two stars, which stand for any folders below.

* `SearchPart.ofPattern?` reads a pattern.
* `Workspace.search` finds the paths that fit.
* `Workspace.list?` lists the files of a folder that fit a pattern, in order.
-/

namespace TableExport

/-- A part of a search pattern. -/
inductive SearchPart
  | name (text : String)
  | wildcard (pattern : Wildcard)
  | anyFolders

namespace SearchPart

/-- Reads a part of a pattern. -/
def ofString? (text : String) : Option SearchPart :=
  if text = "**" then some .anyFolders
  else
    (Wildcard.ofString? text).map fun pattern =>
      match pattern.literal? with
      | some text => .name text
      | none => .wildcard pattern

/-- The parts of a pattern; a slash at its end starts no part. -/
def ofPattern? (pattern : String) : Option (List SearchPart) :=
  let pieces := Path.pieces pattern
  let pieces := if pieces.getLast? = some "" then pieces.dropLast else pieces
  pieces.mapM ofString?

/-- Whether a name fits a part. -/
def fits (name : String) : SearchPart → Bool
  | .name text => name == text
  | .wildcard pattern => pattern.fits name
  | .anyFolders => true

end SearchPart

namespace Workspace

/-- A path for a name in a folder; the current folder leaves no trace. -/
def inFolder (folder name : String) : String :=
  if Path.components folder = ["."] then name else Path.join folder name

/-- Whether a path leads to anything. -/
def hasPath (workspace : Workspace) (path : String) : Bool := (workspace.locate? path).isSome

/-- The paths of the files and folders in a folder. -/
def pathsIn (workspace : Workspace) (folder : String) : List String :=
  match workspace.locate? folder with
  | some location => (workspace.namesIn location).map (inFolder folder)
  | none => []

/-- The paths of the files and folders below a folder. -/
def pathsBelow (workspace : Workspace) (folder : String) : List String :=
  match workspace.locate? folder with
  | some location => (workspace.below location).map fun names => names.foldl inFolder folder
  | none => []

/-- The paths that `.` and `..` make for a wildcard with a leading point. -/
def pointPaths (folder : String) (pattern : Wildcard) : List String :=
  if pattern.head? = some (.char '.') then
    ([".", ".."].filter pattern.fits).map (Path.join folder)
  else []

mutual

/-- The paths that fit some parts, from a folder on. -/
def search (workspace : Workspace) (folder : String) : List SearchPart → List String
  | [] => []
  | .name text :: rest =>
    let next := inFolder folder text
    let found :=
      if text = "." ∨ text = ".." then workspace.isFolder folder else workspace.hasPath next
    if !found then [] else if rest.isEmpty then [next] else search workspace next rest
  | .wildcard pattern :: rest =>
    if !workspace.isFolder folder then []
    else
      let found := (workspace.pathsIn folder).filter fun path =>
        pattern.fits ((Path.fileName? path).getD "")
      let found := found ++ pointPaths folder pattern
      if rest.isEmpty then found else found.flatMap fun path => search workspace path rest
  | .anyFolders :: rest => searchAmong workspace (workspace.pathsBelow folder) rest

/-- The paths that fit some parts, the first of which must fit the name of a candidate. -/
def searchAmong (workspace : Workspace) (candidates : List String) :
    List SearchPart → List String
  | [] => candidates.filter workspace.isFolder
  | .anyFolders :: rest => searchAmong workspace candidates rest
  | part :: rest =>
    let found := candidates.filter fun path => part.fits ((Path.fileName? path).getD "")
    if rest.isEmpty then found else found.flatMap fun path => search workspace path rest

end

/-- Where a search in a folder starts, and the names that lead to the folder from there. A folder
outside the workspace has none. -/
def searchStart? (workspace : Workspace) (folder : String) : Option (String × List SearchPart) :=
  let root := workspace.root.toList
  let text := folder.toList
  if root.isPrefixOf text && !root.isEmpty && (text.drop root.length).head?.all (· == '/') then
    let names := (Path.pieces (String.ofList (text.drop root.length))).drop 1
    some (workspace.root, names.map .name)
  else if Path.isAbsolute folder || folder.isEmpty then none
  else some (".", (Path.pieces folder).map .name)

/-- The files of a folder that fit a pattern, in the order of their paths. Files whose name starts
with a tilde are locks of an editor and are left out. `none` when the pattern is malformed. -/
def list? (workspace : Workspace) (folder pattern : String) : Option (List String) :=
  (SearchPart.ofPattern? pattern).map fun parts =>
    let found := match workspace.searchStart? folder with
      | some (start, names) =>
        if pattern.isEmpty || pattern.toList.getLast? == some '/' then []
        else workspace.search start (names ++ parts)
      | none => []
    (found.filter fun path =>
      workspace.isFile path && ((Path.fileName? path).getD "").toList.head? != some '~').mergeSort
      Path.before

end Workspace

end TableExport
