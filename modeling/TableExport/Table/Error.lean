import TableExport.Cell.Coercion

/-!
# Failures of reading a table

A header that skips a level, a field without a column, or a data cell without a value of its type.
-/

namespace TableExport

/-- A data cell that has no value of its field's type. -/
structure CellFault where
  file : String
  sheet : String
  reference : String
  /-- The value as stored. -/
  value : String
  expected : ScalarType
  cause : CoercionError
  deriving DecidableEq

/-- Why a table cannot be read. -/
inductive TableError
  /-- No header cell stands for the field with this path. -/
  | missingColumn (path : String)
  /-- A header cell lies more than one row below its parent. -/
  | headerDepth (row column parentDepth : Nat)
  | cell (fault : CellFault)
  /-- A date is beyond the day arithmetic. -/
  | overflow (cause : DayOverflow)
  deriving DecidableEq

/-- The failure in words. -/
def CellFault.message (fault : CellFault) : String :=
  "Cannot read cell " ++ fault.reference ++ " of sheet '" ++ fault.sheet ++ "' in '" ++
    fault.file ++ "' as " ++ fault.expected.name ++ ": " ++ fault.cause.message fault.value

/-- The failure in words. -/
def TableError.message : TableError → String
  | .missingColumn path => "Field '" ++ path ++ "' has no header column"
  | .headerDepth row column parentDepth =>
    "Header cell " ++ Reference.render row column ++ " at depth " ++ toString row ++
      " cannot nest under depth " ++ toString parentDepth
  | .cell fault => fault.message
  | .overflow cause => "Day " ++ toString cause.days ++ " is beyond the day arithmetic"

end TableExport
