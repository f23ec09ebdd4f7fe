import TableExport.Proofs.Sheet.Region
import TableExport.Table.Extraction

/-!
# Writing a table into a sheet

How a table is written by hand: each leaf has a column; a label stands in the header row of its
depth, in the first column of its field; a single value stands in the first row of its record, a
list of values is written downward, and the records of an array stand one below the other, each as
high as the highest of its fields.

* `Written` is a value together with the content of a cell that shows it.
* `TypeTree.Authorable` says which type trees can be written like this, `Authored.Conforms` which
  values belong to a type tree.
* `Authored.cells` are the cells of a value and `Authored.sheetCells` those of a whole table.
-/

namespace TableExport

/-! ## Values and their cells -/

/-- A value with the content of a cell that shows it. -/
structure Written where
  value : Scalar
  kind : CellKind
  text : String
  /-- A cell with this content is not blank. -/
  filled : (Cell.mk 0 0 kind text).isBlank = false
  /-- A cell with this content is read as the value. -/
  reads : (Cell.mk 0 0 kind text).coerce value.type = .ok value

/-- The cell that shows a value at a position. -/
def Written.cell (written : Written) (row column : Nat) : Cell :=
  ⟨row, column, written.kind, written.text⟩

@[simp] theorem Written.row_cell (written : Written) (row column : Nat) :
    (written.cell row column).row = row := rfl

@[simp] theorem Written.column_cell (written : Written) (row column : Nat) :
    (written.cell row column).column = column := rfl

theorem Written.isBlank_cell (written : Written) (row column : Nat) :
    (written.cell row column).isBlank = false := written.filled

/-- Where a cell stands does not matter to its value. -/
theorem Cell.coerce_congr (type : ScalarType) {a b : Cell} (hkind : a.kind = b.kind)
    (hvalue : a.value = b.value) : a.coerce type = b.coerce type := by
  obtain ⟨_, _, _, _⟩ := a
  obtain ⟨_, _, _, _⟩ := b
  cases hkind
  cases hvalue
  simp only [coerce, toInteger, toNumber, toBoolean, display, isTrue]
  rfl

theorem Written.coerce_cell (written : Written) (row column : Nat) :
    (written.cell row column).coerce written.value.type = .ok written.value := by
  rw [← written.reads]
  exact Cell.coerce_congr _ rfl rfl

namespace Extracted

variable {α β : Type}

/-- The fields of a record. -/
def fields : Extracted α → Entries (Extracted α)
  | .record fields => fields
  | _ => []

/-- The items of a list; any other value is its own single item. -/
def items : Extracted α → List (Extracted α)
  | .list items => items
  | value => [value]

mutual

/-- The same structure with other single values. -/
def map (f : α → β) : Extracted α → Extracted β
  | .scalar value => .scalar (f value)
  | .list items => .list (mapItems f items)
  | .record fields => .record (mapFields f fields)

/-- The same items with other single values. -/
def mapItems (f : α → β) : List (Extracted α) → List (Extracted β)
  | [] => []
  | item :: rest => item.map f :: mapItems f rest

/-- The same fields with other single values. -/
def mapFields (f : α → β) : List (String × Extracted α) → List (String × Extracted β)
  | [] => []
  | (name, value) :: rest => (name, value.map f) :: mapFields f rest

end

end Extracted

/-! ## Type trees -/

namespace TypeTree

mutual

/-- The number of columns of a field, one for each leaf. -/
def width : TypeTree → Nat
  | .leaf .. => 1
  | .composite _ members => widthAll members

/-- The number of columns of some fields. -/
def widthAll : List TypeTree → Nat
  | [] => 0
  | member :: rest => member.width + widthAll rest

end

mutual

/-- The leftmost leaf is single-valued, and so is every field around it. -/
def StartsSingle : TypeTree → Prop
  | .leaf field _ => field.isArray = false
  | .composite field members => field.isArray = false ∧ FirstStartsSingle members

/-- The first field starts with a single value. -/
def FirstStartsSingle : List TypeTree → Prop
  | [] => False
  | member :: _ => member.StartsSingle

end

/-- The names of some fields can be told apart as labels of a header. -/
structure Labelled (members : List TypeTree) : Prop where
  nodup : (members.map name).Nodup
  ne_empty : ∀ member ∈ members, member.name ≠ ""
  trim_eq : ∀ member ∈ members, trim member.name = member.name

mutual

/-- A table with these fields can be written into a sheet: every composite has fields, with names
that can be told apart, and a single-valued composite starts with a single value. -/
def Authorable : TypeTree → Prop
  | .leaf .. => True
  | .composite field members =>
    members ≠ [] ∧ Labelled members ∧ (field.isArray = false → FirstStartsSingle members) ∧
      AuthorableAll members

/-- Tables with any of these fields can be written into a sheet. -/
def AuthorableAll : List TypeTree → Prop
  | [] => True
  | member :: rest => member.Authorable ∧ AuthorableAll rest

end

theorem AuthorableAll.of_mem {members : List TypeTree} (h : AuthorableAll members)
    {member : TypeTree} (hm : member ∈ members) : member.Authorable := by
  induction members with
  | nil => cases hm
  | cons first rest ih =>
    rcases List.mem_cons.1 hm with rfl | hm
    · exact h.1
    · exact ih h.2 hm

/-- Every field that can be written has a column. -/
theorem Authorable.width_pos : ∀ {tree : TypeTree}, tree.Authorable → 0 < tree.width
  | .leaf .., _ => Nat.one_pos
  | .composite _ [], h => absurd rfl h.1
  | .composite _ (first :: rest), h => by
    have := Authorable.width_pos h.2.2.2.1
    simp only [width, widthAll]
    omega

end TypeTree

namespace Authored

/-! ## Values of a type -/

/-- A record can be told from the record above it: some single-valued leaf of its own has a
value. -/
def Keyed {α : Type} (members : List TypeTree) (fields : Entries α) : Prop :=
  ∃ member ∈ members, member.isLeaf = true ∧ member.isArray = false ∧ member.name ∈ fields.keys

mutual

/-- A value belongs to a field. There are no empty lists and no empty records. -/
inductive Conforms : TypeTree → Extracted Written → Prop
  | scalar {field : Field} {type : ScalarType} {written : Written} :
    field.isArray = false → written.value.type = type →
    Conforms (.leaf field type) (.scalar written)
  | scalars {field : Field} {type : ScalarType} {list : List Written} :
    field.isArray = true → list ≠ [] → (∀ written ∈ list, written.value.type = type) →
    Conforms (.leaf field type) (.list (list.map .scalar))
  | record {field : Field} {members : List TypeTree} {fields : Entries (Extracted Written)} :
    field.isArray = false → fields ≠ [] → FieldsConform members fields →
    Conforms (.composite field members) (.record fields)
  | records {field : Field} {members : List TypeTree} {items : List (Extracted Written)} :
    field.isArray = true → items ≠ [] → (∀ item ∈ items, ItemConforms members item) →
    Conforms (.composite field members) (.list items)

/-- The fields of a record belong to those of a composite and stand in their order. -/
inductive FieldsConform : List TypeTree → Entries (Extracted Written) → Prop
  | nil : FieldsConform [] []
  | absent {member : TypeTree} {rest : List TypeTree} {fields : Entries (Extracted Written)} :
    FieldsConform rest fields → FieldsConform (member :: rest) fields
  | present {member : TypeTree} {rest : List TypeTree} {value : Extracted Written}
    {fields : Entries (Extracted Written)} :
    Conforms member value → FieldsConform rest fields →
    FieldsConform (member :: rest) ((member.name, value) :: fields)

/-- An item of an array of records, which can be told from the item above it. -/
inductive ItemConforms : List TypeTree → Extracted Written → Prop
  | mk {members : List TypeTree} {fields : Entries (Extracted Written)} :
    FieldsConform members fields → Keyed members fields → ItemConforms members (.record fields)

end

/-! ## Cells of values -/

section Stack

variable {β : Type} (height : β → Nat) (write : β → Nat → List Cell)

/-- Cells of items one below the other, each item as high as it says. -/
def stack : List β → Nat → List Cell
  | [], _ => []
  | item :: rest, row => write item row ++ stack rest (row + height item)

/-- The rows that a stack of items takes. -/
def stackHeight : List β → Nat
  | [] => 0
  | item :: rest => height item + stackHeight rest

end Stack

/-- The cell of a single value. -/
def scalarCells (column : Nat) : Extracted Written → Nat → List Cell
  | .scalar written, row => [written.cell row column]
  | _, _ => []

mutual

/-- The number of rows of a value. -/
def height : TypeTree → Extracted Written → Nat
  | .leaf .., value => stackHeight (fun _ => 1) value.items
  | .composite _ members, value =>
    stackHeight (fun item => max 1 (heightAll members item.fields)) value.items

/-- The number of rows of the highest of some fields. -/
def heightAll : List TypeTree → Entries (Extracted Written) → Nat
  | [], _ => 0
  | member :: rest, fields =>
    max ((fields.get? member.name).elim 0 (height member)) (heightAll rest fields)

end

/-- The number of rows of a record. -/
def recordHeight (members : List TypeTree) (item : Extracted Written) : Nat :=
  max 1 (heightAll members item.fields)

mutual

/-- The cells of the value of a field whose first column and first row are given. A list is a stack
of its items, and a single value a stack of one. -/
def cells (column : Nat) : TypeTree → Extracted Written → Nat → List Cell
  | .leaf .., value, row => stack (fun _ => 1) (scalarCells column) value.items row
  | .composite _ members, value, row =>
    stack (fun item => max 1 (heightAll members item.fields))
      (fun item row => cellsAll column members item.fields row) value.items row

/-- The cells of the fields of a record, one field beside the other. -/
def cellsAll (column : Nat) : List TypeTree → Entries (Extracted Written) → Nat → List Cell
  | [], _, _ => []
  | member :: rest, fields, row =>
    ((fields.get? member.name).elim [] fun value => cells column member value row) ++
      cellsAll (column + member.width) rest fields row

end

/-! ## Labels -/

section Labels

-- the kind of the label at a position
variable (style : Nat → Nat → CellKind)

mutual

/-- The label of a field in a header row and the labels below it. -/
def labels (row column : Nat) : TypeTree → List Cell
  | .leaf field _ => [⟨row, column, style row column, field.name⟩]
  | .composite field members =>
    ⟨row, column, style row column, field.name⟩ :: labelsAll (row + 1) column members

/-- The labels of fields beside each other. -/
def labelsAll (row column : Nat) : List TypeTree → List Cell
  | [] => []
  | member :: rest => labels row column member ++ labelsAll row (column + member.width) rest

end

/-- The cells of a table: the labels of the header, and below it the records with `gap` blank rows
after each. -/
def sheetCells (root : TypeTree) (gap : Nat) (rows : List (Extracted Written)) : List Cell :=
  labelsAll style 1 1 root.members ++
    stack (fun item => recordHeight root.members item + gap)
      (fun item row => cellsAll 1 root.members item.fields row) rows (root.maxDepth + 1)

end Labels

/-! ## Where cells stand -/

section Stack

variable {β : Type} {height : β → Nat} {write : β → Nat → List Cell}

theorem row_le_of_mem_stack (h : ∀ item row, ∀ cell ∈ write item row, row ≤ cell.row)
    {items : List β} {row : Nat} {cell : Cell} (hc : cell ∈ stack height write items row) :
    row ≤ cell.row := by
  induction items generalizing row with
  | nil => cases hc
  | cons item rest ih =>
    rcases List.mem_append.1 hc with hc | hc
    · exact h item row cell hc
    · have := ih hc
      omega

theorem row_lt_of_mem_stack
    (h : ∀ item row, ∀ cell ∈ write item row, cell.row < row + height item)
    {items : List β} {row : Nat} {cell : Cell} (hc : cell ∈ stack height write items row) :
    cell.row < row + stackHeight height items := by
  induction items generalizing row with
  | nil => cases hc
  | cons item rest ih =>
    simp only [stackHeight]
    rcases List.mem_append.1 hc with hc | hc
    · have := h item row cell hc
      omega
    · have := ih hc
      omega

/-- What holds of the cells of every item holds of those of the stack. -/
theorem forall_mem_stack {P : Cell → Prop} (h : ∀ item row, ∀ cell ∈ write item row, P cell)
    {items : List β} {row : Nat} {cell : Cell} (hc : cell ∈ stack height write items row) :
    P cell := by
  induction items generalizing row with
  | nil => cases hc
  | cons item rest ih =>
    rcases List.mem_append.1 hc with hc | hc
    · exact h item row cell hc
    · exact ih hc

theorem separate_stack (hle : ∀ item row, ∀ cell ∈ write item row, row ≤ cell.row)
    (hlt : ∀ item row, ∀ cell ∈ write item row, cell.row < row + height item)
    (h : ∀ item row, Sheet.Separate (write item row)) (items : List β) (row : Nat) :
    Sheet.Separate (stack height write items row) := by
  induction items generalizing row with
  | nil => intro a ha; cases ha
  | cons item rest ih =>
    refine Sheet.separate_append (h item row) (ih _) fun a ha b hb hrow => ?_
    have := hlt item row a ha
    have := row_le_of_mem_stack hle hb
    omega

end Stack

theorem mem_scalarCells {column row : Nat} {value : Extracted Written} {cell : Cell}
    (hc : cell ∈ scalarCells column value row) :
    ∃ written : Written, value = .scalar written ∧ cell = written.cell row column := by
  cases value with
  | scalar written => exact ⟨written, rfl, List.mem_singleton.1 hc⟩
  | list _ => cases hc
  | record _ => cases hc

mutual

/-- The cells of a value stand in the columns of its field and in as many rows as it is high. -/
theorem mem_cells : ∀ (tree : TypeTree) {column row : Nat} {value : Extracted Written}
    {cell : Cell}, cell ∈ cells column tree value row →
    (row ≤ cell.row ∧ cell.row < row + height tree value) ∧
      (column ≤ cell.column ∧ cell.column < column + tree.width)
  | .leaf field type, column, row, value, cell, hc => by
    rw [cells] at hc
    have hitem : ∀ (item : Extracted Written) (row : Nat), ∀ cell ∈ scalarCells column item row,
        cell.row = row ∧ cell.column = column := by
      intro item row cell hc
      obtain ⟨written, -, rfl⟩ := mem_scalarCells hc
      exact ⟨rfl, rfl⟩
    refine ⟨⟨row_le_of_mem_stack (fun item row cell h => (hitem item row cell h).1.ge) hc,
      row_lt_of_mem_stack (fun item row cell h => ?_) hc⟩,
      forall_mem_stack (P := fun cell => column ≤ cell.column ∧ cell.column < column + 1)
        (fun item row cell h => ?_) hc⟩
    · have := (hitem item row cell h).1
      omega
    · have := (hitem item row cell h).2
      omega
  | .composite _ members, column, row, value, cell, hc => by
    rw [cells] at hc
    refine ⟨⟨row_le_of_mem_stack (fun item row cell h => (mem_cellsAll members h).1.1) hc,
      row_lt_of_mem_stack (fun item row cell h => ?_) hc⟩,
      forall_mem_stack (P := fun cell => column ≤ cell.column ∧
        cell.column < column + TypeTree.widthAll members)
        (fun item row cell h => (mem_cellsAll members h).2) hc⟩
    have := (mem_cellsAll members h).1.2
    omega

theorem mem_cellsAll : ∀ (members : List TypeTree) {column row : Nat}
    {fields : Entries (Extracted Written)} {cell : Cell},
    cell ∈ cellsAll column members fields row →
    (row ≤ cell.row ∧ cell.row < row + heightAll members fields) ∧
      (column ≤ cell.column ∧ cell.column < column + TypeTree.widthAll members)
  | [], _, _, _, _, hc => by cases hc
  | member :: rest, column, row, fields, cell, hc => by
    rw [cellsAll] at hc
    simp only [heightAll, TypeTree.widthAll]
    rcases List.mem_append.1 hc with hc | hc
    · cases hget : fields.get? member.name with
      | none =>
        rw [hget] at hc
        cases hc
      | some value =>
        rw [hget] at hc
        have := mem_cells member hc
        simp only [Option.elim_some]
        omega
    · have := mem_cellsAll rest hc
      omega

end

/-- The cells of a field do not reach into the columns after it. -/
theorem column_lt_of_mem_field {member : TypeTree} {fields : Entries (Extracted Written)}
    {column row : Nat} {cell : Cell}
    (hc : cell ∈ (fields.get? member.name).elim [] fun value => cells column member value row) :
    cell.column < column + member.width := by
  cases hget : fields.get? member.name with
  | none =>
    rw [hget] at hc
    cases hc
  | some value =>
    rw [hget] at hc
    exact (mem_cells member hc).2.2

mutual

/-- No two cells of a value share a position. -/
theorem separate_cells : ∀ (tree : TypeTree) (column row : Nat) (value : Extracted Written),
    Sheet.Separate (cells column tree value row)
  | .leaf field type, column, row, value => by
    rw [cells]
    refine separate_stack (fun item row cell h => ?_) (fun item row cell h => ?_)
      (fun item row a ha b hb _ _ => ?_) value.items row
    · obtain ⟨written, -, rfl⟩ := mem_scalarCells h
      exact le_refl row
    · obtain ⟨written, -, rfl⟩ := mem_scalarCells h
      exact Nat.lt_succ_self row
    · obtain ⟨written, rfl, rfl⟩ := mem_scalarCells ha
      exact (List.mem_singleton.1 hb).symm
  | .composite _ members, column, row, value => by
    rw [cells]
    refine separate_stack (fun item row cell h => (mem_cellsAll members h).1.1)
      (fun item row cell h => ?_) (fun item row => separate_cellsAll members _ _ _) value.items row
    have := (mem_cellsAll members h).1.2
    omega

theorem separate_cellsAll : ∀ (members : List TypeTree) (column row : Nat)
    (fields : Entries (Extracted Written)), Sheet.Separate (cellsAll column members fields row)
  | [], _, _, _ => by intro a ha; cases ha
  | member :: rest, column, row, fields => by
    rw [cellsAll]
    refine Sheet.separate_append ?_ (separate_cellsAll rest _ row fields)
      fun a ha b hb _ => ?_
    · cases fields.get? member.name with
      | none => intro a ha; cases ha
      | some value => exact separate_cells member column row value
    · have := column_lt_of_mem_field ha
      have := (mem_cellsAll rest hb).2.1
      omega

end

mutual

/-- The cells of a value have values. -/
theorem filled_cells : ∀ (tree : TypeTree) {column row : Nat} {value : Extracted Written},
    ∀ cell ∈ cells column tree value row, cell.isBlank = false
  | .leaf field type, column, row, value, cell, hc => by
    rw [cells] at hc
    refine forall_mem_stack (P := fun cell => cell.isBlank = false)
      (fun item row cell hc => ?_) hc
    obtain ⟨written, -, rfl⟩ := mem_scalarCells hc
    exact written.isBlank_cell row column
  | .composite _ members, column, row, value, cell, hc => by
    rw [cells] at hc
    exact forall_mem_stack (P := fun cell => cell.isBlank = false)
      (fun item row cell hc => filled_cellsAll members cell hc) hc

theorem filled_cellsAll : ∀ (members : List TypeTree) {column row : Nat}
    {fields : Entries (Extracted Written)},
    ∀ cell ∈ cellsAll column members fields row, cell.isBlank = false
  | [], _, _, _, _, hc => by cases hc
  | member :: rest, column, row, fields, cell, hc => by
    rw [cellsAll] at hc
    rcases List.mem_append.1 hc with hc | hc
    · cases hget : fields.get? member.name with
      | none =>
        rw [hget] at hc
        cases hc
      | some value =>
        rw [hget] at hc
        exact filled_cells member cell hc
    · exact filled_cellsAll rest cell hc

end

end Authored

end TableExport
