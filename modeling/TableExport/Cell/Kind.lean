/-!
# Kinds of cells

A cell is blank, a truth value, a number, a date or time kept as a serial number, a date in ISO
form, a text, or an error. A serial number counts days, and a workbook counts them from 1900 or from
1904.
-/

namespace TableExport

/-- Where a workbook starts to count days. -/
inductive DateSystem
  | from1900
  | from1904
  deriving DecidableEq, Inhabited

/-- What a serial number is shown as. -/
inductive SerialPart
  | dateTime
  | date
  | time
  deriving DecidableEq, Inhabited

/-- The kind of a cell. -/
inductive CellKind
  | empty
  | boolean
  | number
  | serial (part : SerialPart) (system : DateSystem)
  | isoDateTime
  | inlineString
  | sharedString
  | error
  deriving DecidableEq, Inhabited

namespace CellKind

/-- The kinds whose value is a number, dates and times included. -/
def isNumber : CellKind → Bool
  | .number | .serial .. => true
  | _ => false

/-- The kinds whose value is a text. -/
def isText : CellKind → Bool
  | .inlineString | .sharedString => true
  | _ => false

end CellKind

end TableExport
