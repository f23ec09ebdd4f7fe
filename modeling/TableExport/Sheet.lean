import Std.Data.HashMap
import TableExport.Cell.Basic
import TableExport.Text.Blank

/-!
# Sheets

A sheet is a sparse grid of cells. A cell that is pushed onto a position replaces the one that was
there and keeps its place in the order of the cells.

* `Sheet.push` adds a cell, `Sheet.get?` finds one.
* `Sheet.isBlank` and `Sheet.isBlankRow` test positions.
* `Sheet.text` is the trimmed text of a position.
-/

namespace TableExport

/-- A worksheet. -/
structure Sheet where
  /-- The file that the sheet came from. -/
  fileName : String
  name : String
  /-- The cells in the order in which their positions were first pushed. -/
  cells : Array Cell := #[]
  /-- Where the cell of a row and a column stands in `cells`. -/
  index : Std.HashMap (Nat × Nat) Nat := ∅
  /-- The greatest row of a cell, 0 when there is none. -/
  maxRow : Nat := 0
  /-- The greatest column of a cell, 0 when there is none. -/
  maxColumn : Nat := 0

namespace Sheet

/-- A sheet without cells. -/
def empty (fileName name : String) : Sheet := { fileName, name }

/-- Adds a cell, in place of one at the same position. -/
def push (sheet : Sheet) (cell : Cell) : Sheet :=
  let ⟨fileName, name, cells, index, maxRow, maxColumn⟩ := sheet
  let maxRow := max maxRow cell.row
  let maxColumn := max maxColumn cell.column
  match index[(cell.row, cell.column)]? with
  | some i => ⟨fileName, name, cells.setIfInBounds i cell, index, maxRow, maxColumn⟩
  | none =>
    let index := index.insert (cell.row, cell.column) cells.size
    ⟨fileName, name, cells.push cell, index, maxRow, maxColumn⟩

/-- A sheet with cells pushed one after the other. -/
def ofCells (fileName name : String) (cells : List Cell) : Sheet :=
  cells.foldl push (empty fileName name)

/-- The cell at a position. -/
def get? (sheet : Sheet) (row column : Nat) : Option Cell :=
  (sheet.index[(row, column)]?).bind fun i => sheet.cells[i]?

/-- Whether a sheet has no cells. -/
def isEmpty (sheet : Sheet) : Bool := sheet.cells.isEmpty

/-- Whether a position holds no cell or a blank one. -/
def isBlank (sheet : Sheet) (row column : Nat) : Bool :=
  ((sheet.get? row column).map Cell.isBlank).getD true

/-- Whether `count` positions of a row from a column on are blank. -/
def isBlankSpan (sheet : Sheet) (row column : Nat) : Nat → Bool
  | 0 => true
  | count + 1 => sheet.isBlank row column && isBlankSpan sheet row (column + 1) count

/-- Whether the positions of a row from `first` through `last` are blank. -/
def isBlankRow (sheet : Sheet) (row first last : Nat) : Bool :=
  sheet.isBlankSpan row first (last + 1 - first)

/-- The text of a position without blanks around it, empty when it is blank. -/
def text (sheet : Sheet) (row column : Nat) : Except DayOverflow String :=
  match sheet.get? row column with
  | some cell => if cell.isBlank then .ok "" else cell.display.map trim
  | none => .ok ""

end Sheet

end TableExport
