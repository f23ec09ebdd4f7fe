import TableExport.Schema.Typing
import TableExport.Validation.WellFormed

/-!
# Validation of a table

The rows of a table are checked together. A schema of a row is wrapped in one of an array.

* `rowSetSchema` is the schema of the rows.
* `validate` checks the rows of a table.
-/

namespace TableExport

/-- The schema of the rows of a table: an array of what an object schema describes, and any other
schema as it is. -/
def rowSetSchema (schema : Json) : Json :=
  if schemaKind? schema = some "object" then
    .obj [("type", .str "array"), ("items", schema)]
  else schema

/-- Why a table fails validation. -/
inductive ValidationError
  | failed (table : String) (violations : List Violation)
  | badSchema (table : String)

/-- The failure in words. -/
def ValidationError.message : ValidationError → String
  | .failed table violations =>
    "Table '" ++ table ++ "' does not match its schema:\n" ++
      "\n".intercalate (violations.map Violation.line)
  | .badSchema table => "Cannot compile schema of table '" ++ table ++ "'"

/-- A schema for the rows of a table that can be checked against. -/
structure Validator where
  table : String
  schema : Json

/-- Prepares the schema of a table or of its rows. -/
def Validator.ofSchema? (table : String) (schema : Json) : Except ValidationError Validator :=
  let schema := rowSetSchema schema
  if Schema.isWellFormed schema then .ok ⟨table, schema⟩ else .error (.badSchema table)

/-- Checks the rows of a table and reports all violations. -/
def Validator.validate (validator : Validator) (rows : Json) : Except ValidationError Unit :=
  match violations validator.schema rows with
  | [] => .ok ()
  | found => .error (.failed validator.table found)

end TableExport
