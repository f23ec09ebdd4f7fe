import TableExport.Batch.Output
import TableExport.Config
import TableExport.Schema.Error
import TableExport.Table.Error
import TableExport.Validation.RowSet
import TableExport.Workbook.Error

/-!
# Errors of runs
-/

namespace TableExport

/-- Why a step of a run fails. -/
inductive BatchError
  | config (cause : ConfigError)
  | schema (cause : SchemaError)
  | workbook (cause : WorkbookError)
  | table (cause : TableError)
  | validation (cause : ValidationError)
  | output (cause : OutputError)
  | failed (cause : TablesFailed)
  /-- The pattern for files is malformed. -/
  | badPattern

namespace BatchError

/-- What is said about an error. -/
def message : BatchError → String
  | .config cause => cause.message
  | .schema cause => cause.message
  | .workbook cause => cause.message
  | .table cause => cause.message
  | .validation cause => cause.message
  | .output cause => cause.message
  | .failed cause => cause.message
  | .badPattern => "Malformed file pattern"

/-- Whether an error ends the whole run, and not only the step: day arithmetic cannot go on. -/
def endsRun : BatchError → Bool
  | .table (.overflow _) => true
  | _ => false

end BatchError

end TableExport
