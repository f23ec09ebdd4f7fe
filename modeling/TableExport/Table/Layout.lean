import TableExport.Sheet
import TableExport.Table.Error
import TableExport.TypeTree

/-!
# Layout of a header

The header rows of a sheet form a tree. A label in row `r` is at depth `r`; it owns the columns from
its own up to the next label of its row, as far as its parent reaches. The header is scanned column
by column and from the top down, with the path to the last label above the final header row as a
stack. A label of the final row hangs under whatever that path ends in.

* `Transition.of?` says how a label relates to the stack.
* `Layout.ofSheet` scans the header.
* `Layout.covers` checks that each field of a type tree has a label.
-/

namespace TableExport

/-- A label with the columns of its field and of the fields below it. -/
structure Layout where
  name : String
  first : Nat
  last : Nat
  /-- The labels below, from left to right. -/
  members : List Layout := []
  deriving Inhabited

/-- The first label below with a name. -/
def Layout.member? (layout : Layout) (name : String) : Option Layout :=
  layout.members.find? (·.name == name)

/-- How a label relates to the stack of open labels. -/
inductive Transition
  /-- In the final header row: hangs under the top and is not opened. -/
  | leaf
  /-- One row below the top: hangs under it. -/
  | descend
  /-- In the row of the top, which is closed first. -/
  | sibling
  /-- Above the top: this many labels are closed first. -/
  | ascend (levels : Nat)
  deriving DecidableEq

/-- The transition for a label in row `depth`, with `size` open labels, the root among them, and
`headerRows` header rows. There is none when the label skips a level. -/
def Transition.of? (depth size headerRows : Nat) : Option Transition :=
  if size = 0 ∨ depth = 0 then none
  else if depth = headerRows then some .leaf
  else if size < depth then none
  else if depth = size then some .descend
  else if depth + 1 = size then some .sibling
  else some (.ascend (size - depth))

/-- The open labels of a scan: the innermost one, and those around it from the inside out. The
outermost one is the root. -/
structure HeaderScan where
  top : Layout
  below : List Layout

namespace HeaderScan

/-- The number of open labels. -/
def size (scan : HeaderScan) : Nat := scan.below.length + 1

/-- Hangs a label under the innermost open one. -/
def attach (scan : HeaderScan) (label : Layout) : HeaderScan :=
  { scan with top := { scan.top with members := scan.top.members ++ [label] } }

/-- Opens a label inside the innermost open one. -/
def descend (scan : HeaderScan) (label : Layout) : HeaderScan := ⟨label, scan.top :: scan.below⟩

/-- Closes a number of labels, each under the one around it. The root stays open. -/
def close : Nat → HeaderScan → HeaderScan
  | 0, scan => scan
  | _ + 1, ⟨top, []⟩ => ⟨top, []⟩
  | levels + 1, ⟨top, parent :: below⟩ =>
    close levels (HeaderScan.attach ⟨parent, below⟩ top)

/-- The column before the next label of a row among `count` columns, and `last` when there is
none. -/
def endBefore (sheet : Sheet) (row last column : Nat) : Nat → Except DayOverflow Nat
  | 0 => .ok last
  | count + 1 => do
    let label ← sheet.text row column
    if label.isEmpty then endBefore sheet row last (column + 1) count else return column - 1

/-- The label at a position, as wide as the innermost open label lets it be. -/
def labelAt (sheet : Sheet) (scan : HeaderScan) (name : String) (row column : Nat) :
    Except DayOverflow Layout := do
  let last := scan.top.last
  return { name, first := column, last := ← endBefore sheet row last (column + 1) (last - column) }

/-- Scans one position of the header. -/
def step (sheet : Sheet) (headerRows : Nat) (scan : HeaderScan) (position : Nat × Nat) :
    Except TableError HeaderScan := do
  let (row, column) := position
  let name ← (sheet.text row column).mapError TableError.overflow
  if name.isEmpty then return scan
  match Transition.of? row scan.size headerRows with
  | none => throw (.headerDepth row column (scan.size - 1))
  | some .leaf =>
    return scan.attach (← (labelAt sheet scan name row column).mapError .overflow)
  | some .descend =>
    return scan.descend (← (labelAt sheet scan name row column).mapError .overflow)
  | some .sibling =>
    let scan := scan.close 1
    return scan.descend (← (labelAt sheet scan name row column).mapError .overflow)
  | some (.ascend levels) =>
    let scan := scan.close levels
    return scan.descend (← (labelAt sheet scan name row column).mapError .overflow)

/-- The root once all labels are closed. -/
def root (scan : HeaderScan) : Layout := (scan.close scan.below.length).top

end HeaderScan

namespace Layout

/-- The positions of the header column by column, each column from the top down. -/
def headerPositions (columns rows : Nat) : List (Nat × Nat) :=
  (List.range' 1 columns).flatMap fun column =>
    (List.range' 1 rows).map fun row => (row, column)

/-- The layout of a sheet with a number of header rows. -/
def ofSheet (sheet : Sheet) (headerRows : Nat) : Except TableError Layout := do
  let root : Layout := { name := TypeTree.rootName, first := 1, last := sheet.maxColumn }
  let scan ← (headerPositions sheet.maxColumn headerRows).foldlM
    (HeaderScan.step sheet headerRows) ⟨root, []⟩
  return scan.root

mutual

/-- Checks that each field of a type tree has a label under its parent's label. -/
def covers (layout : Layout) (path : String) : TypeTree → Except TableError Unit
  | .leaf .. => .ok ()
  | .composite _ members => layout.coversAll path members

/-- Checks the fields of a composite. -/
def coversAll (layout : Layout) (path : String) : List TypeTree → Except TableError Unit
  | [] => .ok ()
  | member :: rest => do
    let path' := TypeTree.joinPath path member.name
    match layout.member? member.name with
    | some label => label.covers path' member
    | none => throw (.missingColumn path')
    layout.coversAll path rest

end

end Layout

end TableExport
