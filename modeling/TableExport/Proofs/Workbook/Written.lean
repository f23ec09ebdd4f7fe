import TableExport.Proofs.Archive.Packed
import TableExport.Proofs.Markup.Elements
import TableExport.Proofs.Reference
import TableExport.Proofs.Sheet.Contents
import TableExport.Workbook.Basic

/-!
# Worksheets as they are written

The cells of a sheet are written row by row, each in an element with its type, its value and its
reference. The reference of a row may be left out below the row before, and that of a cell to the
right of the cell before. A shared string is written as its place in a table.

* `Worksheet.CellForm` and `Worksheet.RowForm` are cells and rows as they are written.
* `Worksheet.read_written`: the reader of a sheet gets the cells that were written.
* `SharedStrings.ofArchive_written`: the table holds the texts that were written.
* `Workbook.readSheet_written`: each position of the sheet holds its cell again, with its text
  where that was shared, and the other positions hold nothing.
-/

namespace TableExport

open Markup

namespace Worksheet

/-! ## Writing -/

/-- A cell as it is written. -/
structure CellForm where
  cell : Cell
  attributes : Entries String
  /-- What stands before the cell. -/
  lead : List Markup.Event := []
  /-- What stands in the cell before its value, such as a formula. -/
  formula : List Markup.Event := []
  /-- The element with the value. -/
  value : List Markup.Event

/-- The events of a cell. -/
def CellForm.events (form : CellForm) : List Markup.Event :=
  form.lead ++ .start (Tag.written "c" form.attributes) ::
    (form.formula ++ (form.value ++ [.stop (Name.ofString "c")]))

/-- A row as it is written. -/
structure RowForm where
  row : Nat
  attributes : Entries String
  /-- What stands before the row. -/
  lead : List Markup.Event := []
  cells : List CellForm
  /-- What stands in the row behind its cells. -/
  tail : List Markup.Event := []

/-- The events of a row. -/
def RowForm.events (form : RowForm) : List Markup.Event :=
  form.lead ++ .start (Tag.written "row" form.attributes) ::
    (form.cells.flatMap CellForm.events ++ (form.tail ++ [.stop (Name.ofString "row")]))

/-- The cells of some rows, row by row. -/
def cellsOf (forms : List RowForm) : List Cell := forms.flatMap fun form => form.cells.map (·.cell)

/-- The types that the cells of a kind are written with. A number needs none. -/
def typesOf : CellKind → List (Option String)
  | .number => [none, some "n"]
  | .boolean => [some "b"]
  | .isoDateTime => [some "d"]
  | .inlineString => [some "inlineStr", some "str"]
  | .sharedString => [some "s"]
  | .error => [some "e"]
  | .empty | .serial .. => []

/-- The element that holds a value: plainly, or in text runs. -/
inductive HoldsValue : List Markup.Event → String → Prop
  | plain {tag : Tag} {inner : List Markup.Event} {text : String} :
    tag.isNamed "v" = true → Spells inner text →
      HoldsValue (.start tag :: (inner ++ [.stop (Name.ofString "v")])) text
  | inline {tag : Tag} {inner : List Markup.Event} {text : String} :
    tag.isNamed "is" = true → Shows "is" inner text →
      HoldsValue (.start tag :: (inner ++ [.stop (Name.ofString "is")])) text

/-- An event that is not part of a cell. -/
abbrev IsIdle (event : Markup.Event) : Prop := event.Avoids ["row", "c", "is", "v"] ["c"]

/-- How a cell of a row is written behind a column. Its reference may be left out in the next
column, and its style does not change its kind. -/
structure CellForm.Written (styles : List CellKind) (row before : Nat) (form : CellForm) :
    Prop where
  row_eq : form.cell.row = row
  before_lt : before < form.cell.column
  column_lt : form.cell.column < Literal.maxCount
  attributes : PlainEntries form.attributes
  reference : form.attributes.get? "r" = some (Reference.render row form.cell.column) ∨
    form.attributes.get? "r" = none ∧ form.cell.column = before + 1
  type : form.attributes.get? "t" ∈ typesOf form.cell.kind
  style : kindInStyle styles form.cell.kind (form.attributes.get? "s") = .ok form.cell.kind
  idle : ∀ event ∈ form.lead ++ form.formula, IsIdle event
  value : HoldsValue form.value form.cell.value
  value_ne : form.cell.value ≠ ""

/-- How the cells of a row are written, from left to right. -/
def CellsWritten (styles : List CellKind) (row : Nat) : Nat → List CellForm → Prop
  | _, [] => True
  | before, form :: rest =>
    form.Written styles row before ∧ CellsWritten styles row form.cell.column rest

/-- How a row is written below another one. Its reference may be left out in the next row. -/
structure RowForm.Written (styles : List CellKind) (before : Nat) (form : RowForm) : Prop where
  before_lt : before < form.row
  row_lt : form.row < Literal.maxCount
  attributes : PlainEntries form.attributes
  reference : form.attributes.get? "r" = some (toString form.row) ∨
    form.attributes.get? "r" = none ∧ form.row = before + 1
  idle : ∀ event ∈ form.lead ++ form.tail, IsIdle event
  cells : CellsWritten styles form.row 0 form.cells

/-- How rows are written, from top to bottom. -/
def RowsWritten (styles : List CellKind) : Nat → List RowForm → Prop
  | _, [] => True
  | before, form :: rest => form.Written styles before ∧ RowsWritten styles form.row rest

/-! ## Reading a cell -/

variable {styles : List CellKind} {scan : Scan} {form : CellForm} {row before : Nat}
  {events rest : List Markup.Event} {text file name : String}

/-- Goes on through a sheet. -/
def goOn (styles : List CellKind) (scan : Scan) (events : List Markup.Event) :
    Except WorkbookError Scan :=
  Part.fold valueElements (Scan.step styles) scan events

/-- The scan after a cell. -/
def Scan.after (scan : Scan) (cell : Cell) : Scan where
  sheet := scan.sheet.push cell
  hasShared := scan.hasShared || cell.kind == .sharedString
  row := cell.row
  column := cell.column
  kind := cell.kind
  value := ""

theorem next_of_lt {n : Nat} (h : n + 1 < Literal.maxCount) : next n = n + 1 :=
  Nat.mod_eq_of_lt (by omega)

theorem kindOfType_of_mem {kind : CellKind} {type : Option String} (h : type ∈ typesOf kind) :
    (type.map kindOfType).getD .number = kind := by
  have hall : ∀ kind ∈ [CellKind.number, .boolean, .isoDateTime, .inlineString, .sharedString,
      .error], ∀ type ∈ typesOf kind, (type.map kindOfType).getD .number = kind := by decide
  cases kind with
  | empty | serial => cases h
  | _ => exact hall _ (by decide) type h

theorem goOn_start {name : String} {attributes : Entries String} {next : Scan}
    (hname : name ∉ ["is", "v"])
    (hstep : Scan.step styles scan (.start (Tag.written name attributes)) "" = .ok next) :
    goOn styles scan (.start (Tag.written name attributes) :: rest) = goOn styles next rest := by
  obtain ⟨his, hv⟩ := not_or.1 (List.mem_pair.not.1 hname)
  exact Part.fold_cons (by simp [valueElements, isNamed_written, his, hv]) nofun hstep

theorem goOn_idle (h : ∀ event ∈ events, IsIdle event) (rest : List Markup.Event) :
    goOn styles scan (events ++ rest) = goOn styles scan rest := by
  refine Part.fold_append_of_passed (fun event hevent => ?_) rest
  have havoids := h event hevent
  have hopens := fun name hname => havoids.opens name hname
  have hcloses := havoids.closes "c" (by simp)
  refine ⟨havoids.ne_fault, ?_, ?_⟩
  · simp [valueElements, hopens]
  · cases event with
    | start tag =>
      simp only [opens_start] at hopens
      simp [Scan.step, hopens]
    | _ => simp [Scan.step, hcloses]

theorem startCell_written (h : form.Written styles row before) (hrow : scan.row = row)
    (hpos : 0 < row) (hlt : row < Literal.maxCount) (hcolumn : scan.column = before) :
    Scan.step styles scan (.start (Tag.written "c" form.attributes)) "" =
      .ok { scan with row, column := form.cell.column, kind := form.cell.kind, value := "" } := by
  have hplace : ((form.attributes.get? "r").bind Reference.parse?).getD
      (max scan.row 1, next scan.column) = (row, form.cell.column) := by
    rcases h.reference with hreference | ⟨hreference, hnext⟩
    · rw [hreference, Option.bind_some, Reference.parse?_render hpos (Nat.zero_lt_of_lt h.before_lt)
        hlt.le h.column_lt.le, Option.getD_some]
    · rw [hreference, hrow, hcolumn, Option.bind_none, Option.getD_none, max_eq_left hpos,
        next_of_lt (hnext ▸ h.column_lt), hnext]
  have hstep : Scan.step styles scan (.start (Tag.written "c" form.attributes)) "" =
      scan.startCell styles (Tag.written "c" form.attributes) := by
    simp [Scan.step, isNamed_written]
  simp only [hstep, Scan.startCell, Part.attribute?, Tag.attribute?_written h.attributes,
    Except.mapError, kindOfType_of_mem h.type, h.style, bind, Except.bind, hplace, pure, Except.pure]

/-- A value is one step. -/
theorem goOn_value (h : HoldsValue events text) (rest : List Markup.Event) :
    goOn styles scan (events ++ rest) = goOn styles { scan with value := text } rest := by
  have hstep : ∀ {tag : Tag} {name : String}, name ∈ ["is", "v"] → tag.isNamed name = true →
      Scan.step styles scan (.start tag) text = .ok { scan with value := text } := by
    intro tag name hname htag
    have hrow : tag.isNamed "row" = false := isNamed_of_ne htag fun heq => by
      rw [heq] at hname
      exact absurd hname (by decide)
    have hc : tag.isNamed "c" = false := isNamed_of_ne htag fun heq => by
      rw [heq] at hname
      exact absurd hname (by decide)
    rcases List.mem_pair.1 hname with rfl | rfl <;> simp [Scan.step, hrow, hc, htag]
  cases h with
  | @plain tag inner _ htag hspells =>
    have hinline : tag.isNamed "is" = false := isNamed_of_ne htag (by decide)
    rw [List.cons_append, List.append_assoc, List.singleton_append]
    have hfound : valueElements.find? (fun one => (Event.start tag).opens one.element) =
        some ⟨"v", true⟩ := by
      simp [valueElements, htag, hinline]
    exact Part.fold_shown hfound (hspells.readText "v" rest) (hstep (by decide) htag)
  | @inline tag inner _ htag hshows =>
    rw [List.cons_append, List.append_assoc, List.singleton_append]
    have hfound : valueElements.find? (fun one => (Event.start tag).opens one.element) =
        some ⟨"is", false⟩ := by
      simp [valueElements, htag]
    exact Part.fold_shown hfound (hshows.readText (by decide) rest) (hstep (by decide) htag)

/-- **A cell is read as it was written.** -/
theorem goOn_cell (h : form.Written styles row before) (hrow : scan.row = row) (hpos : 0 < row)
    (hlt : row < Literal.maxCount) (hcolumn : scan.column = before) (rest : List Markup.Event) :
    goOn styles scan (form.events ++ rest) = goOn styles (scan.after form.cell) rest := by
  obtain ⟨hlead, hformula⟩ := List.forall_mem_append.1 h.idle
  have hstart := startCell_written h hrow hpos hlt hcolumn
  have hne : form.cell.value.isEmpty = false := by simpa using h.value_ne
  have hstop : ∀ scan : Scan, scan.value = form.cell.value →
      goOn styles scan (.stop (Name.ofString "c") :: rest) = goOn styles
        { scan with
          hasShared := scan.hasShared || scan.kind == .sharedString
          sheet := scan.sheet.push ⟨scan.row, scan.column, scan.kind, scan.value⟩
          value := "" } rest := by
    intro scan hvalue
    refine Part.fold_cons (by simp [valueElements]) nofun ?_
    simp [Scan.step, Scan.endCell, hvalue, hne]
  rw [CellForm.events, List.append_assoc, goOn_idle hlead, List.cons_append,
    goOn_start (by decide) hstart, List.append_assoc,
    goOn_idle hformula, List.append_assoc, goOn_value h.value, List.singleton_append, hstop _ rfl,
    Scan.after, ← h.row_eq]

/-! ## Reading rows -/

/-- The scan after the cells of a row. -/
def Scan.afterRow (scan : Scan) (form : RowForm) : Scan :=
  (form.cells.map (·.cell)).foldl Scan.after { scan with row := form.row, column := 0 }

theorem goOn_cells {forms : List CellForm} (h : CellsWritten styles row before forms)
    (hrow : scan.row = row) (hpos : 0 < row) (hlt : row < Literal.maxCount)
    (hcolumn : scan.column = before) (rest : List Markup.Event) :
    goOn styles scan (forms.flatMap CellForm.events ++ rest) =
      goOn styles ((forms.map (·.cell)).foldl Scan.after scan) rest := by
  induction forms generalizing scan before with
  | nil => rfl
  | cons form forms ih =>
    obtain ⟨hform, hforms⟩ := h
    rw [List.flatMap_cons, List.append_assoc, goOn_cell hform hrow hpos hlt hcolumn]
    exact ih hforms hform.row_eq rfl

theorem startRow_written {form : RowForm} (h : form.Written styles before)
    (hrow : scan.row = before) :
    Scan.step styles scan (.start (Tag.written "row" form.attributes)) "" =
      .ok { scan with row := form.row, column := 0 } := by
  have hplace : ((form.attributes.get? "r").bind Literal.count?).getD (next scan.row) =
      form.row := by
    rcases h.reference with hreference | ⟨hreference, hnext⟩
    · rw [hreference, Option.bind_some, Literal.count?_toString h.row_lt.le, Option.getD_some]
    · rw [hreference, hrow, Option.bind_none, Option.getD_none, next_of_lt (hnext ▸ h.row_lt),
        hnext]
  have hstep : Scan.step styles scan (.start (Tag.written "row" form.attributes)) "" =
      scan.startRow (Tag.written "row" form.attributes) := by
    simp [Scan.step, isNamed_written]
  simp only [hstep, Scan.startRow, Part.attribute?, Tag.attribute?_written h.attributes,
    Except.mapError, bind, Except.bind, hplace, pure, Except.pure]

/-- **A row is read as it was written.** -/
theorem goOn_row {form : RowForm} (h : form.Written styles before) (hrow : scan.row = before)
    (rest : List Markup.Event) :
    goOn styles scan (form.events ++ rest) = goOn styles (scan.afterRow form) rest := by
  obtain ⟨hlead, htail⟩ := List.forall_mem_append.1 h.idle
  have hstart := startRow_written h hrow
  have hstop : ∀ event ∈ [Event.stop (Name.ofString "row")], IsIdle event :=
    List.forall_mem_singleton.2 (avoids_stop (by decide))
  rw [RowForm.events, List.append_assoc, goOn_idle hlead, List.cons_append,
    goOn_start (by decide) hstart, List.append_assoc,
    goOn_cells h.cells rfl (Nat.zero_lt_of_lt h.before_lt) h.row_lt rfl, List.append_assoc,
    goOn_idle htail, goOn_idle hstop, Scan.afterRow]

theorem row_foldl_after {cells : List Cell} (h : ∀ cell ∈ cells, cell.row = scan.row) :
    (cells.foldl Scan.after scan).row = scan.row := by
  induction cells generalizing scan with
  | nil => rfl
  | cons cell rest ih =>
    obtain ⟨hcell, hrest⟩ := List.forall_mem_cons.1 h
    have hafter : ∀ other ∈ rest, other.row = (scan.after cell).row := fun other hother =>
      (hrest other hother).trans hcell.symm
    rw [List.foldl_cons, ih hafter]
    exact hcell

theorem CellsWritten.row_eq {forms : List CellForm} (h : CellsWritten styles row before forms) :
    ∀ form ∈ forms, form.cell.row = row := by
  induction forms generalizing before with
  | nil => nofun
  | cons form forms ih => exact List.forall_mem_cons.2 ⟨h.1.row_eq, ih h.2⟩

theorem goOn_rows {forms : List RowForm} (h : RowsWritten styles before forms)
    (hrow : scan.row = before) (rest : List Markup.Event) :
    goOn styles scan (forms.flatMap RowForm.events ++ rest) =
      goOn styles (forms.foldl Scan.afterRow scan) rest := by
  induction forms generalizing scan before with
  | nil => rfl
  | cons form forms ih =>
    obtain ⟨hform, hforms⟩ := h
    rw [List.flatMap_cons, List.append_assoc, goOn_row hform hrow]
    refine ih hforms ?_
    rw [Scan.afterRow, row_foldl_after]
    intro cell hcell
    obtain ⟨one, hone, rfl⟩ := List.mem_map.1 hcell
    exact hform.cells.row_eq one hone

/-- What cells do to a sheet, and to whether there are shared strings. -/
theorem sheet_foldl_after (cells : List Cell) (scan : Scan) :
    (cells.foldl Scan.after scan).sheet = cells.foldl Sheet.push scan.sheet ∧
      (cells.foldl Scan.after scan).hasShared =
        (scan.hasShared || cells.any (·.kind == .sharedString)) := by
  induction cells generalizing scan with
  | nil => exact ⟨rfl, (Bool.or_false _).symm⟩
  | cons cell rest ih =>
    obtain ⟨hsheet, hshared⟩ := ih (scan.after cell)
    refine ⟨hsheet, hshared.trans ?_⟩
    rw [List.any_cons, ← Bool.or_assoc]
    rfl

theorem sheet_foldl_afterRow (forms : List RowForm) (scan : Scan) :
    (forms.foldl Scan.afterRow scan).sheet = (cellsOf forms).foldl Sheet.push scan.sheet ∧
      (forms.foldl Scan.afterRow scan).hasShared =
        (scan.hasShared || (cellsOf forms).any (·.kind == .sharedString)) := by
  induction forms generalizing scan with
  | nil => exact ⟨rfl, (Bool.or_false _).symm⟩
  | cons form forms ih =>
    obtain ⟨hsheet, hshared⟩ := ih (scan.afterRow form)
    obtain ⟨hsheet', hshared'⟩ := sheet_foldl_after (form.cells.map (·.cell))
      { scan with row := form.row, column := 0 }
    rw [List.foldl_cons, cellsOf, List.flatMap_cons, List.foldl_append, List.any_append,
      hsheet, hshared, ← cellsOf, Scan.afterRow, hsheet', hshared', Bool.or_assoc]
    exact ⟨rfl, rfl⟩

/-- **The reader of a sheet gets the cells that were written.** -/
theorem read_written {forms : List RowForm} {tail : List Markup.Event}
    (h : RowsWritten styles 0 forms) (htail : ∀ event ∈ tail, IsIdle event) :
    ∃ scan, read file name styles (forms.flatMap RowForm.events ++ tail) = .ok scan ∧
      scan.sheet = Sheet.ofCells file name (cellsOf forms) ∧
      scan.hasShared = (cellsOf forms).any (·.kind == .sharedString) := by
  have hread : read file name styles (forms.flatMap RowForm.events ++ tail) =
      .ok (forms.foldl Scan.afterRow { sheet := .empty file name }) := by
    rw [read, ← goOn, goOn_rows h rfl, ← List.append_nil tail, goOn_idle htail, goOn, Part.fold]
  obtain ⟨hsheet, hshared⟩ := sheet_foldl_afterRow forms { sheet := .empty file name }
  exact ⟨_, hread, hsheet, hshared.trans (Bool.false_or _)⟩

/-! ## Positions -/

/-- The cells of written rows do not share a position. -/
theorem CellsWritten.lt_column {forms : List CellForm} (h : CellsWritten styles row before forms) :
    ∀ form ∈ forms, before < form.cell.column := by
  induction forms generalizing before with
  | nil => nofun
  | cons form forms ih =>
    refine List.forall_mem_cons.2 ⟨h.1.before_lt, fun other hother => ?_⟩
    exact h.1.before_lt.trans (ih h.2 other hother)

theorem CellsWritten.separate {forms : List CellForm} (h : CellsWritten styles row before forms) :
    Sheet.Separate (forms.map (·.cell)) := by
  induction forms generalizing before with
  | nil => nofun
  | cons form forms ih =>
    have hafter := h.2.lt_column
    rw [List.map_cons, ← List.singleton_append]
    refine Sheet.separate_append ?_ (ih h.2) ?_
    · simp [Sheet.Separate]
    · intro a ha b hb _ hcolumn
      obtain ⟨other, hother, rfl⟩ := List.mem_map.1 hb
      rw [List.mem_singleton.1 ha] at hcolumn
      exact (hafter other hother).ne hcolumn

theorem RowsWritten.lt_row {forms : List RowForm} (h : RowsWritten styles before forms) :
    ∀ cell ∈ cellsOf forms, before < cell.row := by
  induction forms generalizing before with
  | nil => nofun
  | cons form forms ih =>
    rw [cellsOf, List.flatMap_cons, ← cellsOf]
    refine List.forall_mem_append.2 ⟨fun cell hcell => ?_, fun cell hcell => ?_⟩
    · obtain ⟨one, hone, rfl⟩ := List.mem_map.1 hcell
      rw [h.1.cells.row_eq one hone]
      exact h.1.before_lt
    · exact h.1.before_lt.trans (ih h.2 cell hcell)

theorem RowsWritten.separate {forms : List RowForm} (h : RowsWritten styles before forms) :
    Sheet.Separate (cellsOf forms) := by
  induction forms generalizing before with
  | nil => nofun
  | cons form forms ih =>
    rw [cellsOf, List.flatMap_cons, ← cellsOf]
    refine Sheet.separate_append h.1.cells.separate (ih h.2) fun a ha b hb hrow => ?_
    obtain ⟨one, hone, rfl⟩ := List.mem_map.1 ha
    rw [h.1.cells.row_eq one hone] at hrow
    exact absurd hrow (h.2.lt_row b hb).ne

end Worksheet

/-! ## Shared strings -/

namespace SharedStrings

/-- A shared string as it is written. -/
structure ItemForm where
  text : String
  /-- What stands before the item. -/
  lead : List Markup.Event := []
  tag : Tag
  /-- The text runs of the item, and what else stands in it. -/
  content : List Markup.Event

/-- The events of an item. -/
def ItemForm.events (form : ItemForm) : List Markup.Event :=
  form.lead ++ .start form.tag :: (form.content ++ [.stop (Name.ofString "si")])

/-- How an item is written. -/
structure ItemForm.Written (form : ItemForm) : Prop where
  named : form.tag.isNamed "si" = true
  idle : ∀ event ∈ form.lead, event.Avoids ["si"] []
  shows : Shows "si" form.content form.text

/-- **The table holds the texts that were written.** -/
theorem ofArchive_written {archive : Archive} {forms : List ItemForm} {tail : List Markup.Event}
    (hpart : archive.events? "xl/sharedStrings.xml" =
      .ok (some (forms.flatMap ItemForm.events ++ tail)))
    (h : ∀ form ∈ forms, form.Written) (htail : ∀ event ∈ tail, event.Avoids ["si"] []) :
    ofArchive archive = .ok (forms.map (·.text)).toArray := by
  let step (table : Array String) (event : Markup.Event) (text : String) :
      Except WorkbookError (Array String) :=
    .ok (if event.opens "si" then table.push text else table)
  have hidle : ∀ {table : Array String} {events : List Markup.Event} (rest : List Markup.Event),
      (∀ event ∈ events, event.Avoids ["si"] []) →
      Part.fold [⟨"si", false⟩] step table (events ++ rest) =
        Part.fold [⟨"si", false⟩] step table rest := by
    intro table events rest hevents
    refine Part.fold_append_of_passed (fun event hevent => ?_) rest
    have hopens := (hevents event hevent).opens "si" (by simp)
    exact ⟨(hevents event hevent).ne_fault, by simp [hopens], by simp [step, hopens]⟩
  have hfold : ∀ table : Array String,
      Part.fold [⟨"si", false⟩] step table (forms.flatMap ItemForm.events ++ tail) =
        .ok (table ++ (forms.map (·.text)).toArray) := by
    clear hpart
    induction forms with
    | nil =>
      intro table
      rw [List.flatMap_nil, List.nil_append, ← List.append_nil tail, hidle [] htail, Part.fold]
      simp
    | cons form forms ih =>
      intro table
      obtain ⟨hform, hforms⟩ := List.forall_mem_cons.1 h
      have hfound : [(⟨"si", false⟩ : Part.Shown)].find? (fun one =>
          (Event.start form.tag).opens one.element) = some ⟨"si", false⟩ := by
        simp [hform.named]
      rw [List.flatMap_cons, List.append_assoc, ItemForm.events, List.append_assoc,
        hidle _ hform.idle, List.cons_append, List.append_assoc, List.singleton_append,
        Part.fold_shown hfound (hform.shows.readText (by decide) _) rfl, ih hforms]
      simp [hform.named]
  rw [ofArchive, hpart]
  exact (hfold #[]).trans (by simp)

end SharedStrings

/-- A cell with its text, where that is shared. -/
def Cell.withShared (texts : List String) (cell : Cell) : Cell :=
  if cell.kind = .sharedString then
    { cell with value := (((Literal.count? cell.value).bind fun i => texts[i]?).getD "") }
  else cell

theorem Cell.resolveShared_eq {file : String} {texts : List String} {cell : Cell}
    (h : cell.kind = .sharedString → ∃ i < texts.length, Literal.count? cell.value = some i) :
    cell.resolveShared file texts.toArray = .ok (cell.withShared texts) := by
  rw [Cell.resolveShared, Cell.withShared]
  split_ifs with hkind
  · obtain ⟨i, hi, hcount⟩ := h hkind
    simp only [hcount, Option.bind_some, List.getElem?_toArray, List.getElem?_eq_getElem hi,
      Option.getD_some]
  · rfl

/-- A sheet with the texts of its cells, where these are shared. -/
def Sheet.withShared (texts : List String) (sheet : Sheet) : Sheet :=
  { sheet with cells := sheet.cells.map (Cell.withShared texts) }

theorem Sheet.get?_withShared (texts : List String) (sheet : Sheet) (row column : Nat) :
    (sheet.withShared texts).get? row column =
      (sheet.get? row column).map (Cell.withShared texts) :=
  sheet.get?_map _ row column

theorem Sheet.resolveShared_eq {sheet : Sheet} {texts : List String}
    (h : ∀ cell ∈ sheet.cells, cell.kind = .sharedString →
      ∃ i < texts.length, Literal.count? cell.value = some i) :
    sheet.resolveShared texts.toArray = .ok (sheet.withShared texts) := by
  have hlist : ∀ cells : List Cell, (∀ cell ∈ cells, cell ∈ sheet.cells) →
      cells.mapM (Cell.resolveShared sheet.fileName texts.toArray) =
        .ok (cells.map (Cell.withShared texts)) := by
    intro cells hcells
    induction cells with
    | nil => rfl
    | cons cell rest ih =>
      obtain ⟨hcell, hrest⟩ := List.forall_mem_cons.1 hcells
      rw [List.mapM_cons, Cell.resolveShared_eq (h cell hcell), ih hrest]
      rfl
  rw [Sheet.resolveShared, Array.mapM_eq_mapM_toList,
    hlist _ fun cell hcell => Array.mem_toList_iff.1 hcell, ← Array.toList_map]
  simp only [bind, Except.bind, pure, Except.pure, Functor.map, Except.map, Array.toArray_toList,
    Sheet.withShared]

/-! ## Sheets -/

namespace Workbook

open Worksheet

section

variable {workbook : Workbook} {name part : String} {forms : List RowForm}
  {tail : List Markup.Event} {items : List SharedStrings.ItemForm} {itemsTail : List Markup.Event}

/-- **A sheet is read as it was written.** Let the rows of the part of a sheet be written with their
cells, and the shared strings that there are in the table; let each shared string of a cell be one of
the table. Then each position of a cell holds it again, with its text where that is shared, no other
position holds a cell, and the last row and column are those of the cells. -/
theorem readSheet_written (hpart : Entries.get? workbook.contents.sheets name = some part)
    (hevents : workbook.archive.events? part =
      .ok (some (forms.flatMap RowForm.events ++ tail)))
    (hforms : RowsWritten workbook.styles 0 forms) (htail : ∀ event ∈ tail, IsIdle event)
    (htable : (∃ cell ∈ cellsOf forms, cell.kind = .sharedString) →
      workbook.archive.events? "xl/sharedStrings.xml" =
        .ok (some (items.flatMap SharedStrings.ItemForm.events ++ itemsTail)))
    (hitems : ∀ item ∈ items, item.Written)
    (hitemsTail : ∀ event ∈ itemsTail, event.Avoids ["si"] [])
    (hshared : ∀ cell ∈ cellsOf forms, cell.kind = .sharedString →
      ∃ i < items.length, Literal.count? cell.value = some i) :
    ∃ sheet, workbook.readSheet name = .ok sheet ∧
      (∀ cell ∈ cellsOf forms, sheet.get? cell.row cell.column =
        some (cell.withShared (items.map (·.text)))) ∧
      (∀ row column, (∀ cell ∈ cellsOf forms, ¬ Sheet.IsAt row column cell) →
        sheet.get? row column = none) ∧
      sheet.maxRow = ((cellsOf forms).map Cell.row).foldl max 0 ∧
      sheet.maxColumn = ((cellsOf forms).map Cell.column).foldl max 0 := by
  obtain ⟨scan, hread, hsheet, hhas⟩ :=
    @read_written workbook.styles workbook.name name forms tail hforms htail
  have hget : ∀ cell ∈ cellsOf forms, scan.sheet.get? cell.row cell.column = some cell := by
    rw [hsheet]
    exact fun cell hcell => Sheet.get?_ofCells_of_mem hforms.separate _ _ hcell
  have hnone : ∀ row column, (∀ cell ∈ cellsOf forms, ¬ Sheet.IsAt row column cell) →
      scan.sheet.get? row column = none := by
    rw [hsheet]
    exact fun row column h => Sheet.get?_ofCells_eq_none _ _ h
  have hrow : scan.sheet.maxRow = _ :=
    (congrArg Sheet.maxRow hsheet).trans (Sheet.maxRow_eq_foldl _ _ _)
  have hcolumn : scan.sheet.maxColumn = _ :=
    (congrArg Sheet.maxColumn hsheet).trans (Sheet.maxColumn_eq_foldl _ _ _)
  by_cases hexists : ∃ cell ∈ cellsOf forms, cell.kind = .sharedString
  · have hany : scan.hasShared = true := by
      rw [hhas, List.any_eq_true]
      exact hexists.imp fun cell h => ⟨h.1, by simp [h.2]⟩
    have hstrings := SharedStrings.ofArchive_written (htable hexists) hitems hitemsTail
    have hresolved := @Sheet.resolveShared_eq scan.sheet (items.map (·.text))
      fun cell hcell hkind => by
        rw [hsheet] at hcell
        rw [List.length_map]
        exact hshared cell (Sheet.mem_of_mem_ofCells hcell) hkind
    refine ⟨scan.sheet.withShared (items.map (·.text)), ?_, fun cell hcell => ?_,
      fun row column h => ?_, hrow, hcolumn⟩
    · rw [readSheet, hpart]
      simp only [Archive.requireEvents, hevents, bind, Except.bind, pure, Except.pure, hread, hany,
        if_true, hstrings]
      exact hresolved
    · rw [Sheet.get?_withShared, hget cell hcell, Option.map_some]
    · rw [Sheet.get?_withShared, hnone row column h, Option.map_none]
  · have hany : scan.hasShared = false := by
      rw [hhas, List.any_eq_false]
      intro cell hcell
      simpa using fun hkind => hexists ⟨cell, hcell, hkind⟩
    refine ⟨scan.sheet, ?_, fun cell hcell => ?_, hnone, hrow, hcolumn⟩
    · rw [readSheet, hpart]
      simp only [Archive.requireEvents, hevents, bind, Except.bind, pure, Except.pure, hread, hany,
        Bool.false_eq_true, if_false]
    · rw [hget cell hcell, Cell.withShared, if_neg fun hkind => hexists ⟨cell, hcell, hkind⟩]

end

/-! A sheet whose first row and cell are written without references, with a shared string in two
runs, a formula, and a text with an entity. -/

namespace Armoury

def sheetText : String :=
  "<row><c t=\"s\"><v>0</v></c></row>" ++
  "<row r=\"3\"><c r=\"B3\"><f/><v>7</v></c><c t=\"str\"><v>a&amp;b</v></c></row>"

def sharedText : String := "<si><r><t>Sword</t></r><r><t> of Dawn</t></r></si>"

def parts : List (String × ByteArray) :=
  [("s", sheetText.toUTF8), ("xl/sharedStrings.xml", sharedText.toUTF8)]

def workbook : Workbook where
  name := "Armoury.xlsx"
  archive := Archive.packed parts
  contents := { sheets := [("Data", "s")], system := .from1900 }
  styles := []

/-- An element with some events. -/
def element (name : String) (inner : List Markup.Event) : List Markup.Event :=
  .start (Tag.written name []) :: (inner ++ [.stop (Name.ofString name)])

def forms : List RowForm :=
  [{ row := 1
     attributes := []
     cells := [
       { cell := ⟨1, 1, .sharedString, "0"⟩
         attributes := [("t", "s")]
         value := element "v" [.text (some "0")] }] },
   { row := 3
     attributes := [("r", "3")]
     cells := [
       { cell := ⟨3, 2, .number, "7"⟩
         attributes := [("r", "B3")]
         formula := element "f" []
         value := element "v" [.text (some "7")] },
       { cell := ⟨3, 3, .inlineString, "a&b"⟩
         attributes := [("t", "str")]
         value := element "v" [.text (some "a"), .reference (some "amp"), .text (some "b")] }] }]

def items : List SharedStrings.ItemForm :=
  [{ text := "Sword of Dawn"
     tag := Tag.written "si" []
     content := element "r" (element "t" [.text (some "Sword")]) ++
       element "r" (element "t" [.text (some " of Dawn")]) }]

theorem packable : Archive.Packable parts :=
  ⟨by decide, by decide, by decide, by decide, by decide_cbv⟩

theorem read_sheetText :
    Markup.read sheetText.toUTF8.toList true = forms.flatMap RowForm.events := by
  cbv

theorem read_sharedText :
    Markup.read sharedText.toUTF8.toList true = items.flatMap SharedStrings.ItemForm.events := by
  cbv

theorem rows_written : RowsWritten workbook.styles 0 forms := by
  have hmax : 3 < Literal.maxCount := by decide
  have hone : 1 < Literal.maxCount := Nat.lt_of_lt_of_le (by decide) hmax.le
  have htwo : 2 < Literal.maxCount := Nat.lt_of_lt_of_le (by decide) hmax.le
  have hname : (Tag.written "v" []).isNamed "v" = true := isNamed_written.trans (by decide)
  have hplain : ∀ pair ∈ [("t", "s"), ("r", "3"), ("r", "B3"), ("t", "str")],
      PlainEntries [pair] := by
    intro pair hpair
    refine plainEntries_singleton ?_
    fin_cases hpair <;> exact ⟨by decide, by simp, by simp⟩
  have hspells : Spells [.text (some "a"), .reference (some "amp"), .text (some "b")] "a&b" := by
    have hand : referenced "amp" = .ok '&' := by cbv
    exact .text "a" (.reference hand (.text "b" .nil))
  refine ⟨⟨by decide, hone, plainEntries_nil, .inr (by decide), List.forall_mem_nil _, ?_, trivial⟩,
    ⟨by decide, hmax, hplain _ (by simp), .inl (by decide), List.forall_mem_nil _, ?_, ?_, trivial⟩,
    trivial⟩
  · exact ⟨by decide, by decide, hone, hplain _ (by simp), .inr (by decide), by decide, rfl,
      List.forall_mem_nil _, .plain hname (.text "0" .nil), by decide⟩
  · exact ⟨by decide, by decide, htwo, hplain _ (by simp), .inl (by decide_cbv), by decide, rfl,
      List.forall_mem_cons.2 ⟨avoids_start (by decide),
        List.forall_mem_singleton.2 (avoids_stop (by decide))⟩,
      .plain hname (.text "7" .nil), by decide⟩
  · exact ⟨by decide, by decide, hmax, hplain _ (by simp), .inr (by decide), by decide, rfl,
      List.forall_mem_nil _, .plain hname hspells, by decide⟩

theorem items_written : ∀ item ∈ items, item.Written := by
  have hname : (Tag.written "t" []).isNamed "t" = true := isNamed_written.trans (by decide)
  have hstart : (Event.start (Tag.written "r" [])).Avoids ["t", "rPh"] ["si"] :=
    avoids_start (by decide)
  have hstop : (Event.stop (Name.ofString "r")).Avoids ["t", "rPh"] ["si"] :=
    avoids_stop (by decide)
  refine List.forall_mem_singleton.2 ⟨isNamed_written.trans (by decide), List.forall_mem_nil _, ?_⟩
  exact .other hstart (.run hname (.text "Sword" .nil) (.other hstop
    (.other hstart (.run hname (.text " of Dawn" .nil) (.other hstop .nil)))))

/-- The sheet is read: the shared text is put together, the position that is left out is that of the
next column, and the positions in between are empty. -/
theorem readSheet_armoury : ∃ sheet, workbook.readSheet "Data" = .ok sheet ∧
    sheet.get? 1 1 = some ⟨1, 1, .sharedString, "Sword of Dawn"⟩ ∧
    sheet.get? 3 2 = some ⟨3, 2, .number, "7"⟩ ∧
    sheet.get? 3 3 = some ⟨3, 3, .inlineString, "a&b"⟩ ∧
    sheet.get? 2 1 = none ∧ sheet.maxRow = 3 ∧ sheet.maxColumn = 3 := by
  have hsheet := Archive.events?_packed packable (List.mem_cons_self)
  have hshared := Archive.events?_packed packable (List.mem_cons_of_mem _ List.mem_cons_self)
  rw [read_sheetText, ← List.append_nil (forms.flatMap _)] at hsheet
  rw [read_sharedText, ← List.append_nil (items.flatMap _)] at hshared
  obtain ⟨sheet, hread, hcells, hnone, hrow, hcolumn⟩ :=
    @readSheet_written workbook "Data" "s" forms [] items [] rfl hsheet rows_written
      (List.forall_mem_nil _) (fun _ => hshared) items_written (List.forall_mem_nil _) (by decide)
  exact ⟨sheet, hread, (hcells ⟨1, 1, .sharedString, "0"⟩ (by decide)).trans (by decide),
    (hcells ⟨3, 2, .number, "7"⟩ (by decide)).trans (by decide),
    (hcells ⟨3, 3, .inlineString, "a&b"⟩ (by decide)).trans (by decide),
    hnone 2 1 (by decide), hrow, hcolumn⟩

end Armoury

end Workbook

end TableExport
