import TableExport.Markup.Basic

/-!
# Errors of workbooks
-/

namespace TableExport

/-- Why a workbook or one of its sheets cannot be read. -/
inductive WorkbookError
  /-- The file with this name is no archive, or cannot be read. -/
  | notWorkbook (name : String)
  /-- The extension of the file is not one of a workbook. -/
  | unsupported (path : String)
  | missingPart (part : String)
  /-- The workbook with this name lists no sheet. -/
  | noSheet (name : String)
  | sheetNotFound (file sheet : String)
  /-- A cell names a shared string that there is not. -/
  | badSharedString (file index : String)
  /-- A cell names its style by something that is no number. -/
  | badStyle
  /-- A part is locked, or packed in an unknown way. -/
  | badArchive
  | markup (cause : MarkupError)

/-- What is said about an error. -/
def WorkbookError.message : WorkbookError → String
  | .notWorkbook name => "Cannot open '" ++ name ++ "' as a workbook"
  | .unsupported path => "Unsupported workbook format '" ++ path ++ "'"
  | .missingPart part => "Missing part '" ++ part ++ "' in workbook"
  | .noSheet name => "Workbook '" ++ name ++ "' contains no sheet"
  | .sheetNotFound file sheet => "Sheet '" ++ sheet ++ "' not found in '" ++ file ++ "'"
  | .badSharedString file index =>
    "Invalid shared string index '" ++ index ++ "' in '" ++ file ++ "'"
  | .badStyle => "Invalid style index"
  | .badArchive => "Unreadable part of an archive"
  | .markup cause => cause.message

end TableExport
