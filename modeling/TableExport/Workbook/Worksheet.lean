import TableExport.Reference
import TableExport.Sheet
import TableExport.Workbook.Part

/-!
# Worksheets

The part of a sheet holds its cells row by row. Rows and cells without a reference follow the one
before. Cells without a value are left out, and the text of a shared string stands in a table.

* `Worksheet.read` reads the cells of a part.
* `SharedStrings.ofArchive` is the table of the shared strings.
* `Sheet.resolveShared` puts the shared strings into their cells.
-/

namespace TableExport

namespace Worksheet

/-- What was read of a sheet, and the cell that is being read. -/
structure Scan where
  sheet : Sheet
  hasShared : Bool := false
  row : Nat := 0
  column : Nat := 0
  kind : CellKind := .empty
  value : String := ""

/-- The number after a row or a column, in 64 bits. -/
def next (n : Nat) : Nat := (n + 1) % (Literal.maxCount + 1)

/-- The kind of the cells with a type. -/
def kindOfType (type : String) : CellKind :=
  if type = "inlineStr" ∨ type = "str" then .inlineString
  else if type = "s" then .sharedString
  else if type = "d" then .isoDateTime
  else if type = "b" then .boolean
  else if type = "e" then .error
  else .number

/-- The kind of a cell in a style. Only number cells are changed by it. -/
def kindInStyle (styles : List CellKind) (kind : CellKind) (style : Option String) :
    Except WorkbookError CellKind :=
  match style with
  | none => .ok kind
  | some style =>
    if kind = .number ∧ style ≠ "" then
      match Literal.count? style with
      | some i => .ok ((styles[i]?).getD .number)
      | none => .error .badStyle
    else .ok kind

/-- Reads the start of a row. -/
def Scan.startRow (scan : Scan) (tag : Markup.Tag) : Except WorkbookError Scan := do
  let reference ← Part.attribute? tag "r"
  return { scan with
    row := (reference.bind Literal.count?).getD (next scan.row)
    column := 0 }

/-- Reads the start of a cell. -/
def Scan.startCell (styles : List CellKind) (scan : Scan) (tag : Markup.Tag) :
    Except WorkbookError Scan := do
  let reference ← Part.attribute? tag "r"
  let (row, column) :=
    (reference.bind Reference.parse?).getD (max scan.row 1, next scan.column)
  let type ← Part.attribute? tag "t"
  let style ← Part.attribute? tag "s"
  let kind ← kindInStyle styles ((type.map kindOfType).getD .number) style
  return { scan with row, column, kind, value := "" }

/-- Reads the end of a cell. -/
def Scan.endCell (scan : Scan) : Scan :=
  if scan.value.isEmpty then scan
  else
    { scan with
      hasShared := scan.hasShared || scan.kind == .sharedString
      sheet := scan.sheet.push ⟨scan.row, scan.column, scan.kind, scan.value⟩
      value := "" }

/-- Reads an event. -/
def Scan.step (styles : List CellKind) (scan : Scan) (event : Markup.Event) (text : String) :
    Except WorkbookError Scan :=
  match event with
  | .start tag =>
    if tag.isNamed "row" then scan.startRow tag
    else if tag.isNamed "c" then scan.startCell styles tag
    else if tag.isNamed "is" || tag.isNamed "v" then .ok { scan with value := text }
    else .ok scan
  | event => .ok (if event.closes "c" then scan.endCell else scan)

/-- The elements that hold the value of a cell. -/
def valueElements : List Part.Shown := [⟨"is", false⟩, ⟨"v", true⟩]

/-- Reads the cells of a sheet. -/
def read (file name : String) (styles : List CellKind) (events : List Markup.Event) :
    Except WorkbookError Scan :=
  Part.fold valueElements (Scan.step styles) { sheet := .empty file name } events

end Worksheet

/-- The table of the shared strings of the workbook in an archive. A workbook without one has an
empty table. -/
def SharedStrings.ofArchive (archive : Archive) : Except WorkbookError (Array String) := do
  match ← archive.events? "xl/sharedStrings.xml" with
  | none => return #[]
  | some events =>
    Part.fold [⟨"si", false⟩] (fun table event text =>
      .ok (if event.opens "si" then table.push text else table)) #[] events

/-- The shared string of a cell; any other cell stays as it is. -/
def Cell.resolveShared (file : String) (table : Array String) (cell : Cell) :
    Except WorkbookError Cell :=
  if cell.kind = .sharedString then
    match (Literal.count? cell.value).bind fun i => table[i]? with
    | some text => .ok { cell with value := text }
    | none => .error (.badSharedString file cell.value)
  else .ok cell

/-- Puts the shared strings into their cells. -/
def Sheet.resolveShared (sheet : Sheet) (table : Array String) : Except WorkbookError Sheet := do
  let cells ← sheet.cells.mapM (Cell.resolveShared sheet.fileName table)
  return { sheet with cells }

end TableExport
