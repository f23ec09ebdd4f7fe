import TableExport.Table.Layout

/-!
# Extraction of a table

A record starts at a row and ends before the next row in which one of its single-valued fields has
a value. Its array fields are read over all of its rows. What has no value is left out: there is no
empty record, no empty list and no null.

The walk is generic in what a cell is read as, so that the structure of a table can be looked at
apart from the values of its cells.

* `Extraction.recordEnd` is the last row of a record.
* `Extraction.readRecord` reads one record, `Extraction.readRecords` the records of a range of rows.
* `Extraction.readTable` reads the rows below a header.
* `extractTable` lays out a sheet, checks the layout and reads the values.
-/

namespace TableExport

/-- What a table holds: single values, lists, and records with their fields in order. -/
inductive Extracted (α : Type)
  | scalar (value : α)
  | list (items : List (Extracted α))
  | record (fields : List (String × Extracted α))
  deriving Inhabited

namespace Extracted

mutual

/-- The JSON form of extracted values. -/
def toJson : Extracted Scalar → Json
  | .scalar value => value.toJson
  | .list items => .arr (toJsonItems items)
  | .record fields => .obj (toJsonFields fields)

/-- The JSON forms of the items of a list. -/
def toJsonItems : List (Extracted Scalar) → List Json
  | [] => []
  | item :: rest => item.toJson :: toJsonItems rest

/-- The JSON members of the fields of a record. -/
def toJsonFields : List (String × Extracted Scalar) → List (String × Json)
  | [] => []
  | (name, value) :: rest => (name, value.toJson) :: toJsonFields rest

end

end Extracted

namespace Extraction

variable {α ε : Type}

/-! ## Rows -/

/-- The first of `count` rows in which a column has a value. -/
def nextFilled? (sheet : Sheet) (column row : Nat) : Nat → Option Nat
  | 0 => none
  | count + 1 =>
    if sheet.isBlank row column then nextFilled? sheet column (row + 1) count else some row

/-- The last row of a record that starts at `start` and lies within the rows up to `stop`: each
single-valued field ends it before the next row in which its first column has a value. -/
def recordEnd (sheet : Sheet) (type : TypeTree) (labels : List Layout) (start stop : Nat) : Nat :=
  labels.foldl (fun stop label =>
    match type.member? label.name with
    | some member =>
      if member.isArray then stop
      else
        match nextFilled? sheet label.first (start + 1) (stop - start) with
        | some next => next - 1
        | none => stop
    | none => stop) stop

/-- The cells with a value among `count` rows of a column. -/
def columnCells (sheet : Sheet) (column row : Nat) : Nat → List Cell
  | 0 => []
  | count + 1 =>
    match (sheet.get? row column).filter (!·.isBlank) with
    | some cell => cell :: columnCells sheet column (row + 1) count
    | none => columnCells sheet column (row + 1) count

/-! ## Records -/

/-- Adds the value of a field to a record. The lists of an array field with several columns are
joined; of a single-valued field the last value stays. -/
def addField (fields : Entries (Extracted α)) (member : TypeTree) (value : Extracted α) :
    Entries (Extracted α) :=
  match value with
  | .list items =>
    if member.isArray then
      match fields.get? member.name with
      | some (.list before) => fields.put member.name (.list (before ++ items))
      | _ => fields.put member.name (.list items)
    else fields.put member.name value
  | _ => fields.put member.name value

/-- The list of some items, if there are any. -/
def listOf (items : List (Extracted α)) : Option (Extracted α) :=
  if items.isEmpty then none else some (.list items)

/-- The record of some fields, if there are any. -/
def recordOf (fields : Entries (Extracted α)) : Option (Extracted α) :=
  if fields.isEmpty then none else some (.record fields)

/-- Reads records one after the other from `row` through `stop`. A blank row is skipped; a record
is read at any other, and the next one starts after its last row. -/
def collect (isBlank : Nat → Bool) (read : Nat → Except ε (Entries (Extracted α) × Nat))
    (row stop : Nat) : Except ε (List (Extracted α)) :=
  if stop < row then .ok []
  else if isBlank row then collect isBlank read (row + 1) stop
  else do
    let (fields, last) ← read row
    let rest ← collect isBlank read (max row last + 1) stop
    return (recordOf fields).toList ++ rest
termination_by stop + 1 - row

variable (coerce : ScalarType → Cell → Except ε α) (sheet : Sheet)

/-- Reads a leaf: the cell in the first row, or for an array all cells of the column. -/
def readLeaf (field : Field) (type : ScalarType) (column start stop : Nat) :
    Except ε (Option (Extracted α)) :=
  if field.isArray then do
    let values ← (columnCells sheet column start (stop + 1 - start)).mapM (coerce type)
    return listOf (values.map .scalar)
  else
    match (sheet.get? start column).filter (!·.isBlank) with
    | some cell => (coerce type cell).map fun value => some (.scalar value)
    | none => .ok none

mutual

/-- Reads the record that starts at a row, and finds its last row. -/
def readRecord (type : TypeTree) (layout : Layout) (start stop : Nat) :
    Except ε (Entries (Extracted α) × Nat) :=
  match layout with
  | ⟨_, _, _, labels⟩ => do
    let last := recordEnd sheet type labels start stop
    return (← readFields type labels start last [], last)

/-- Reads the fields under some labels into a record; a label that names no field is passed
over. -/
def readFields (type : TypeTree) (labels : List Layout) (start stop : Nat)
    (fields : Entries (Extracted α)) : Except ε (Entries (Extracted α)) :=
  match labels with
  | [] => .ok fields
  | label :: rest =>
    match type.member? label.name with
    | none => readFields type rest start stop fields
    | some member => do
      let value ← match member with
        | .leaf field scalar => readLeaf coerce sheet field scalar label.first start stop
        | .composite field _ =>
          if field.isArray then
            (collect (fun row => sheet.isBlankRow row label.first label.last)
              (fun row => readRecord member label row stop) start stop).map listOf
          else (readRecord member label start stop).map fun record => recordOf record.1
      readFields type rest start stop (value.elim fields (addField fields member))

end

/-- Reads the records from `start` through `stop`. -/
def readRecords (type : TypeTree) (layout : Layout) (start stop : Nat) :
    Except ε (List (Extracted α)) :=
  collect (fun row => sheet.isBlankRow row layout.first layout.last)
    (fun row => readRecord coerce sheet type layout row stop) start stop

/-- Reads the records below a number of header rows. Row numbers have 64 bits. -/
def readTable (type : TypeTree) (layout : Layout) (headerRows : Nat) :
    Except ε (List (Extracted α)) :=
  let start := (headerRows + 1) % (Literal.maxCount + 1)
  readRecords coerce sheet type layout start (max sheet.maxRow start)

end Extraction

/-- The value of a cell of a sheet, or why the table cannot be read. -/
def coerceIn (sheet : Sheet) (type : ScalarType) (cell : Cell) : Except TableError Scalar :=
  (cell.coerce type).mapError fun
    | .coercion cause =>
      .cell ⟨sheet.fileName, sheet.name, cell.reference, cell.value, type, cause⟩
    | .overflow cause => .overflow cause

/-- The records of a sheet as its type tree describes them. The header takes as many rows as the
tree has levels. -/
def extractTable (sheet : Sheet) (type : TypeTree) :
    Except TableError (List (Extracted Scalar)) := do
  let headerRows := type.maxDepth
  let layout ← Layout.ofSheet sheet headerRows
  layout.covers "" type
  Extraction.readTable (coerceIn sheet) sheet type layout headerRows

/-- The JSON form of the records of a table. -/
def tableJson (records : List (Extracted Scalar)) : Json := (Extracted.list records).toJson

end TableExport
