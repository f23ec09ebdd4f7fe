import TableExport.Cell.NumberFormat
import TableExport.Workbook.Part

/-!
# Styles

A style names its number format, which the workbook may define. The styles of a workbook say which
kind the number cells have that are shown in them.

* `Styles.ofArchive` is the list of the kinds, in the order of the styles.
-/

namespace TableExport.Styles

/-- What was read of the styles. -/
structure Scan where
  inFormats : Bool := false
  /-- The kinds of the formats that the workbook defines. -/
  formats : Entries CellKind := []
  inStyles : Bool := false
  /-- The formats of the styles, the last first. -/
  ids : List String := []

/-- Reads an event. -/
def Scan.step (system : DateSystem) (scan : Scan) (event : Markup.Event) (_ : String) :
    Except WorkbookError Scan :=
  if event.opens "numFmts" then return { scan with inFormats := true }
  else if event.closes "numFmts" then return { scan with inFormats := false }
  else if event.opens "cellXfs" then return { scan with inStyles := true }
  else if event.closes "cellXfs" then return { scan with inStyles := false }
  else
    match event with
    | .start tag =>
      if scan.inFormats && tag.isNamed "numFmt" then do
        let id ← Part.attribute? tag "numFmtId"
        let pattern ← Part.attribute? tag "formatCode"
        match id, pattern with
        | some id, some pattern =>
          return { scan with
            formats := scan.formats.put id (NumberFormat.ofPattern pattern system) }
        | _, _ => return scan
      else if scan.inStyles && tag.isNamed "xf" then do
        let id ← Part.attribute? tag "numFmtId"
        return { scan with ids := id.getD "" :: scan.ids }
      else return scan
    | _ => return scan

/-- The kind of the number cells with a format: first those that the workbook defines. -/
def kindOf (formats : Entries CellKind) (system : DateSystem) (id : String) : CellKind :=
  ((formats.get? id).or (NumberFormat.builtin? id system)).getD .number

/-- The kinds of the styles that were read. -/
def Scan.kinds (scan : Scan) (system : DateSystem) : List CellKind :=
  scan.ids.reverse.map (kindOf scan.formats system)

/-- The kinds of the styles of the workbook in an archive. A workbook without styles has none. -/
def ofArchive (archive : Archive) (system : DateSystem) : Except WorkbookError (List CellKind) := do
  match ← archive.events? "xl/styles.xml" with
  | none => return []
  | some events => return (← Part.fold [] (Scan.step system) {} events).kinds system

end TableExport.Styles
