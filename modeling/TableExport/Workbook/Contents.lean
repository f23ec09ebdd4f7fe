import TableExport.Cell.Kind
import TableExport.Workbook.Part

/-!
# The contents of workbooks

A workbook lists its sheets by name, each with an identifier. Relationships say which part an
identifier stands for.

* `Contents.ofArchive` is the list of the sheets with their parts, and the date system.
-/

namespace TableExport

/-- What a workbook says about its sheets. -/
structure Contents where
  /-- The names of the sheets and their parts. -/
  sheets : List (String × String) := []
  system : DateSystem := .from1900

namespace Contents

/-- The part that the target of a relationship stands for. -/
def partOf (target : String) : String :=
  match target.toList with
  | '/' :: path => String.ofList path
  | 'x' :: 'l' :: '/' :: _ => target
  | _ => "xl/" ++ target

/-- Whether the type of a relationship leads to a worksheet. -/
def isWorksheet (type : String) : Bool := "/worksheet".toList.isSuffixOf type.toList

/-- Reads a relationship to a worksheet. -/
def relate (parts : Entries String) (event : Markup.Event) (_ : String) :
    Except WorkbookError (Entries String) :=
  match event with
  | .start tag =>
    if tag.name.local == Markup.Name.ofString "Relationship" then do
      let id ← Part.attribute? tag "Id"
      let type ← Part.attribute? tag "Type"
      let target ← Part.attribute? tag "Target"
      match (type.map isWorksheet).getD true, id, target with
      | true, some id, some target => return parts.put id (partOf target)
      | _, _, _ => return parts
    else return parts
  | _ => return parts

/-- Reads a sheet or the date system. -/
def list (parts : Entries String) (contents : Contents) (event : Markup.Event) (_ : String) :
    Except WorkbookError Contents :=
  match event with
  | .start tag =>
    if tag.isNamed "sheet" then do
      let name ← Part.attribute? tag "name"
      let id ← Part.attribute? tag "id"
      match name, id.bind parts.get? with
      | some name, some part => return { contents with sheets := contents.sheets ++ [(name, part)] }
      | _, _ => return contents
    else if tag.isNamed "workbookPr" then do
      let is1904 ← Part.attribute? tag "date1904"
      let system := if is1904 = some "1" ∨ is1904 = some "true" then .from1904 else .from1900
      return { contents with system }
    else return contents
  | _ => return contents

/-- The contents of the workbook in an archive. -/
def ofArchive (archive : Archive) : Except WorkbookError Contents := do
  let parts ← Part.fold [] relate [] (← archive.requireEvents "xl/_rels/workbook.xml.rels")
  Part.fold [] (list parts) {} (← archive.requireEvents "xl/workbook.xml")

end Contents

end TableExport
