import TableExport.Cell.Kind
import TableExport.Cell.Serial
import TableExport.Reference

/-!
# Cells

A cell has a position, a kind and the value that the workbook stores. A cell without a kind or
without a value is blank.

* `Cell.display` is the text of a cell: truth values in words, serial numbers as dates and times,
  anything else as stored.
-/

namespace TableExport

/-- A cell of a sheet. Rows and columns count from 1. -/
structure Cell where
  row : Nat
  column : Nat
  kind : CellKind
  /-- The value as stored: a truth value as `1` or `0`, a number as written. -/
  value : String
  deriving DecidableEq, Inhabited

namespace Cell

/-- The reference of a cell. -/
def reference (cell : Cell) : String := Reference.render cell.row cell.column

/-- Whether a cell holds nothing. -/
def isBlank (cell : Cell) : Bool := cell.kind == .empty || cell.value.isEmpty

/-- The truth value that a cell stores. -/
def isTrue (cell : Cell) : Bool := cell.value == "1"

/-- The text of a cell. A serial number without a date is shown as stored. -/
def display (cell : Cell) : Except DayOverflow String :=
  match cell.kind with
  | .boolean => .ok (if cell.isTrue then "true" else "false")
  | .serial .dateTime system =>
    (Serial.dateTimeText cell.value system).map fun text => text.getD cell.value
  | .serial .date system =>
    (Serial.dateText cell.value system).map fun text => text.getD cell.value
  | .serial .time _ => .ok ((Serial.timeText cell.value).getD cell.value)
  | .isoDateTime => .ok (cell.value.map fun c => if c = 'T' then ' ' else c)
  | _ => .ok cell.value

end Cell

end TableExport
