import TableExport.Files.Path
import TableExport.Files.Workspace
import TableExport.Workbook.Contents
import TableExport.Workbook.Styles
import TableExport.Workbook.Worksheet

/-!
# Workbooks

* `Workbook.ofBytes` opens the workbook in some bytes.
* `Workbook.ofFile` opens the workbook in a file, which needs one of two extensions.
* `Workbook.readSheet` reads a sheet.
-/

namespace TableExport

/-- A workbook. -/
structure Workbook where
  /-- The name of the file. -/
  name : String
  archive : Archive
  contents : Contents
  /-- The kinds of the number cells, by style. -/
  styles : List CellKind

namespace Workbook

/-- Opens the workbook in some bytes. -/
def ofBytes (name : String) (bytes : ByteArray) : Except WorkbookError Workbook := do
  match Archive.open? bytes with
  | none => throw (.notWorkbook name)
  | some archive =>
    let contents ← Contents.ofArchive archive
    if contents.sheets.isEmpty then throw (.noSheet name)
    let styles ← Styles.ofArchive archive contents.system
    return { name, archive, contents, styles }

/-- Whether a path has the extension of a workbook. -/
def isSupported (path : String) : Bool :=
  match Path.extension? path with
  | some extension => ["xlsx", "xlsm"].contains (extension.map Char.toLower)
  | none => false

/-- Opens the workbook in a file. -/
def ofFile (workspace : Workspace) (path : String) : Except WorkbookError Workbook :=
  if isSupported path then
    match workspace.read? path with
    | some bytes => ofBytes path bytes
    | none => .error (.notWorkbook path)
  else .error (.unsupported path)

/-- The names of the sheets. -/
def sheetNames (workbook : Workbook) : List String := workbook.contents.sheets.map Prod.fst

/-- Reads the first sheet with a name. The shared strings are only looked at when a cell has one. -/
def readSheet (workbook : Workbook) (name : String) : Except WorkbookError Sheet := do
  match Entries.get? workbook.contents.sheets name with
  | none => throw (.sheetNotFound workbook.name name)
  | some part =>
    let events ← workbook.archive.requireEvents part
    let scan ← Worksheet.read workbook.name name workbook.styles events
    if scan.hasShared then scan.sheet.resolveShared (← SharedStrings.ofArchive workbook.archive)
    else return scan.sheet

end Workbook

end TableExport
