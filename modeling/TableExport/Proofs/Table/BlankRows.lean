import TableExport.Proofs.Table.Authored
import TableExport.Proofs.Table.Ranges
import TableExport.Proofs.Table.Columns

/-!
# Blank rows

Rows that are put into a sheet below its header change nothing in what is read, wherever they are
put: between records, inside a record or inside a record of a nested array.

The walks over the two sheets run side by side. A row of the first corresponds to the row that it
moves to, and the first row that moves also to each of the new rows (`Corresponds`), so that the
end of a record may fall anywhere among the new rows. At corresponding rows both walks stop, or the
second passes over a new row, or both look at the same cells (`Corresponds.induction`).

* `related_readRecord`: the walks read the same record, and end in corresponding rows.
* `extractTable_moveDown`: the extracted records are the same, and a cell that cannot be read fails
  in the same way with its new reference.
-/

namespace TableExport

/-! ## Moving rows down -/

/-- The row that a row moves to when `count` rows are put before row `first`. -/
def movedRow (first count row : Nat) : Nat := if row < first then row else row + count

/-- A cell in the row that its row moves to. -/
def Cell.moveDown (first count : Nat) (cell : Cell) : Cell :=
  { cell with row := movedRow first count cell.row }

/-- The failure after rows have been put in: the cell that cannot be read has its new reference, and
nothing else is different. -/
inductive MovedError (first count : Nat) : TableError → TableError → Prop
  | cell (cell : Cell) (file sheet : String) (expected : ScalarType) (cause : CoercionError) :
    MovedError first count (.cell ⟨file, sheet, cell.reference, cell.value, expected, cause⟩)
      (.cell ⟨file, sheet, (cell.moveDown first count).reference, cell.value, expected, cause⟩)
  | other {e : TableError} : (∀ fault, e ≠ .cell fault) → MovedError first count e e

theorem movedRow_of_lt {first count row : Nat} (h : row < first) :
    movedRow first count row = row := if_pos h

theorem movedRow_inj {first count a b : Nat} :
    movedRow first count a = movedRow first count b ↔ a = b := by
  simp only [movedRow]
  split <;> split <;> omega

theorem movedRow_lt_iff (first count : Nat) {a b : Nat} :
    movedRow first count a < movedRow first count b ↔ a < b := by
  simp only [movedRow]
  split <;> split <;> omega

/-- A row that no row moves to is one of the new rows. -/
theorem new_of_ne {first count row : Nat} (h : ¬ ∃ old, movedRow first count old = row) :
    first ≤ row ∧ row < first + count := by
  by_contra hnew
  by_cases hlt : row < first
  · exact h ⟨row, movedRow_of_lt hlt⟩
  · refine h ⟨row - count, ?_⟩
    rw [movedRow, if_neg (by omega)]
    omega

namespace Sheet

/-- The second sheet holds the cells of the first, moved down by some rows that are blank. -/
structure Moved (first count : Nat) (sheet other : Sheet) : Prop where
  get?_movedRow (row column : Nat) : other.get? (movedRow first count row) column =
    (sheet.get? row column).map (Cell.moveDown first count)
  get?_new {row column : Nat} : first ≤ row → row < first + count → other.get? row column = none

/-- The sheet of moved cells. -/
theorem moved_ofCells (first count : Nat) (fileName name : String) (cells : List Cell) :
    Moved first count (ofCells fileName name cells)
      (ofCells fileName name (cells.map (Cell.moveDown first count))) where
  get?_movedRow row column := by
    rw [get?_ofCells, get?_ofCells, ← List.map_reverse, List.find?_map]
    congr 2
    funext cell
    exact decide_eq_decide.2 (and_congr_left' movedRow_inj)
  get?_new h₁ h₂ := by
    apply get?_ofCells_eq_none
    intro cell hc
    obtain ⟨cell, -, rfl⟩ := List.mem_map.1 hc
    rintro ⟨hrow, -⟩
    simp only [Cell.moveDown, movedRow] at hrow
    split at hrow <;> omega

/-- The last row moves with the cells. -/
theorem maxRow_moveDown (first count : Nat) (fileName name : String) (cells : List Cell)
    (hfirst : 0 < first) :
    (ofCells fileName name (cells.map (Cell.moveDown first count))).maxRow =
      movedRow first count (ofCells fileName name cells).maxRow := by
  induction cells using List.reverseRecOn with
  | nil => exact (movedRow_of_lt hfirst).symm
  | append_singleton cells cell ih =>
    rw [List.map_append, List.map_singleton, ofCells_concat, ofCells_concat, maxRow_push,
      maxRow_push, ih]
    simp only [Cell.moveDown, movedRow]
    split <;> split <;> split <;> omega

theorem maxColumn_moveDown (first count : Nat) (fileName name : String) (cells : List Cell) :
    (ofCells fileName name (cells.map (Cell.moveDown first count))).maxColumn =
      (ofCells fileName name cells).maxColumn := by
  induction cells using List.reverseRecOn with
  | nil => rfl
  | append_singleton cells cell ih =>
    rw [List.map_append, List.map_singleton, ofCells_concat, ofCells_concat, maxColumn_push,
      maxColumn_push, ih]
    rfl

namespace Moved

variable {first count : Nat} {sheet other : Sheet}

theorem filter_get? (h : Moved first count sheet other) (row column : Nat) :
    (other.get? (movedRow first count row) column).filter (!·.isBlank) =
      ((sheet.get? row column).filter (!·.isBlank)).map (Cell.moveDown first count) := by
  rw [h.get?_movedRow, Option.filter_map]
  rfl

theorem isBlank_movedRow (h : Moved first count sheet other) (row column : Nat) :
    other.isBlank (movedRow first count row) column = sheet.isBlank row column := by
  rw [isBlank, isBlank, h.get?_movedRow, Option.map_map]
  rfl

theorem isBlank_new (h : Moved first count sheet other) {row column : Nat} (h₁ : first ≤ row)
    (h₂ : row < first + count) : other.isBlank row column = true :=
  isBlank_of_get?_eq_none (h.get?_new h₁ h₂)

theorem isBlankRow_movedRow (h : Moved first count sheet other) (row left right : Nat) :
    other.isBlankRow (movedRow first count row) left right = sheet.isBlankRow row left right := by
  rw [Bool.eq_iff_iff, isBlankRow_eq_true, isBlankRow_eq_true]
  simp only [h.isBlank_movedRow]

theorem isBlankRow_new (h : Moved first count sheet other) {row : Nat} (left right : Nat)
    (h₁ : first ≤ row) (h₂ : row < first + count) : other.isBlankRow row left right = true :=
  isBlankRow_eq_true.2 fun _ _ _ => h.isBlank_new h₁ h₂

end Moved

end Sheet

namespace Extraction

/-! ## Corresponding rows -/

/-- A row of the second sheet from which on the cells of the first sheet stand that stand there from
a row on: the row that it moves to, or one of the new rows before it. -/
def Corresponds (first count row row' : Nat) : Prop :=
  (row < first ∧ row' = row) ∨ (row = first ∧ first ≤ row' ∧ row' ≤ first + count) ∨
    (first < row ∧ row' = row + count)

section Rows

variable {first count row row' stop stop' : Nat}

theorem corresponds_movedRow (first count row : Nat) :
    Corresponds first count row (movedRow first count row) := by
  simp only [Corresponds, movedRow]
  split <;> omega

/-- What follows a row corresponds to what follows the row that it moves to. -/
theorem corresponds_succ (first count row : Nat) :
    Corresponds first count (row + 1) (movedRow first count row + 1) := by
  simp only [Corresponds, movedRow]
  split <;> omega

theorem Corresponds.movedRow_lt {next next' : Nat} (h : Corresponds first count next next')
    (hlt : row < next) : movedRow first count row < next' := by
  simp only [Corresponds, movedRow] at h ⊢
  split <;> omega

theorem Corresponds.le_movedRow (h : Corresponds first count row row') :
    row' ≤ movedRow first count row := by
  simp only [Corresponds, movedRow] at h ⊢
  split <;> omega

/-- Two ranges of corresponding rows are walked side by side: both are over, or the second one goes
on with a new row, or both go on with a row and the row that it moves to. -/
@[elab_as_elim]
theorem Corresponds.induction {motive : Nat → Nat → Prop}
    (hstop : Corresponds first count (stop + 1) (stop' + 1))
    (ended : ∀ row row', stop < row → stop' < row' → motive row row')
    (pass : ∀ row row', first ≤ row' → row' < first + count → row' ≤ stop' →
      motive row (row' + 1) → motive row row')
    (step : ∀ row, row ≤ stop → movedRow first count row ≤ stop' →
      (∀ next next', row < next → Corresponds first count next next' → motive next next') →
      motive row (movedRow first count row)) :
    ∀ row row', Corresponds first count row row' → motive row row' := by
  intro row row' hrow
  by_cases hnew : first ≤ row' ∧ row' < first + count ∧ row' ≤ stop'
  · refine pass row row' hnew.1 hnew.2.1 hnew.2.2
      (Corresponds.induction hstop ended pass step row (row' + 1) ?_)
    simp only [Corresponds] at hrow ⊢
    omega
  · by_cases hle : row ≤ stop
    · have hle' := Nat.le_of_lt_succ (hstop.movedRow_lt (Nat.lt_succ_of_le hle))
      have hmoved : row' = movedRow first count row := by
        simp only [Corresponds, movedRow] at hrow hle' ⊢
        split at hle' <;> split <;> omega
      subst hmoved
      refine step row hle hle' fun next next' hlt hnext => ?_
      exact Corresponds.induction hstop ended pass step next next' hnext
    · refine ended row row' (by omega) ?_
      simp only [Corresponds] at hstop hrow
      omega
termination_by row row' => (stop + 1 - row) + (stop' + 1 - row')
decreasing_by
  · omega
  · have hlt' := hnext.movedRow_lt hlt
    omega

end Rows

/-! ## Walks side by side -/

variable {α ε ε' : Type} {first count : Nat} {sheet other : Sheet}

theorem starts_movedRow (h : sheet.Moved first count other) {type : TypeTree}
    {labels : List Layout} {row : Nat} :
    Starts other type labels (movedRow first count row) ↔ Starts sheet type labels row := by
  simp only [Starts, h.isBlank_movedRow]

/-- No record starts in a new row. -/
theorem not_starts_new (h : sheet.Moved first count other) {type : TypeTree}
    {labels : List Layout} {row : Nat} (h₁ : first ≤ row) (h₂ : row < first + count) :
    ¬ Starts other type labels row := by
  rintro ⟨label, -, -, -, -, hfilled⟩
  rw [h.isBlank_new h₁ h₂] at hfilled
  cases hfilled

/-- The rows after corresponding records correspond. -/
theorem corresponds_recordEnd (h : sheet.Moved first count other) (type : TypeTree)
    (labels : List Layout) {start stop stop' : Nat} (hle : start ≤ stop)
    (hstop : Corresponds first count (stop + 1) (stop' + 1)) :
    Corresponds first count (recordEnd sheet type labels start stop + 1)
      (recordEnd other type labels (movedRow first count start) stop' + 1) := by
  have hle' : movedRow first count start ≤ stop' :=
    Nat.le_of_lt_succ (hstop.movedRow_lt (Nat.lt_succ_of_le hle))
  obtain ⟨hrange, hnone, hnext⟩ := recordEnd_spec sheet type labels hle
  obtain ⟨hrange', hnone', hnext'⟩ := recordEnd_spec other type labels hle'
  generalize recordEnd sheet type labels start stop = last at *
  generalize recordEnd other type labels (movedRow first count start) stop' = last' at *
  have hlower : movedRow first count last ≤ last' := by
    by_contra hlt
    have hlast : movedRow first count last < stop' + 1 :=
      hstop.movedRow_lt (Nat.lt_succ_of_le hrange.2)
    have hstart := hnext' (by omega)
    -- the row that starts a record after `last'` is the new place of one within the record
    obtain ⟨row, hrow⟩ : ∃ row, movedRow first count row = last' + 1 := by
      by_contra hnew
      exact not_starts_new h (new_of_ne hnew).1 (new_of_ne hnew).2 hstart
    rw [← hrow, starts_movedRow h] at hstart
    exact hnone row ((movedRow_lt_iff first count).1 (by omega))
      (Nat.le_of_not_lt fun hgt => absurd ((movedRow_lt_iff first count).2 hgt) (by omega)) hstart
  have hupper : last' < movedRow first count (last + 1) := by
    by_contra hge
    have hlt : last < stop := by
      by_contra hlast
      have hover := hstop.le_movedRow
      rw [show stop = last by omega] at hover
      omega
    exact hnone' _ ((movedRow_lt_iff first count).2 (Nat.lt_succ_of_le hrange.1))
      (Nat.le_of_not_lt hge) ((starts_movedRow h).2 (hnext hlt))
  simp only [Corresponds, movedRow] at hlower hupper ⊢
  split at hlower <;> split at hupper <;> omega

/-- The new rows add no cells to a column. -/
theorem columnCells_moveDown (h : sheet.Moved first count other) {column row row' stop stop' : Nat}
    (hstop : Corresponds first count (stop + 1) (stop' + 1))
    (hrow : Corresponds first count row row') :
    columnCells other column row' (stop' + 1 - row') =
      (columnCells sheet column row (stop + 1 - row)).map (Cell.moveDown first count) := by
  refine Corresponds.induction (motive := fun row row' =>
    columnCells other column row' (stop' + 1 - row') =
      (columnCells sheet column row (stop + 1 - row)).map (Cell.moveDown first count)) hstop
    ?ended ?pass ?step row row' hrow
  case ended =>
    intro row row' hlt hlt'
    rw [Nat.sub_eq_zero_of_le hlt, Nat.sub_eq_zero_of_le hlt']
    rfl
  case pass =>
    intro row row' h₁ h₂ hle ih
    rw [columnCells_skip (Nat.le_succ row') (by omega) fun r h₃ h₄ =>
      h.isBlank_new (by omega) (by omega)]
    exact ih
  case step =>
    intro row hle hle' ih
    have hnext := ih (row + 1) (movedRow first count row + 1) (Nat.lt_succ_self row)
      (corresponds_succ first count row)
    rw [Nat.succ_sub hle, Nat.succ_sub hle', columnCells, columnCells, h.filter_get?,
      show stop - row = stop + 1 - (row + 1) by omega,
      show stop' - movedRow first count row = stop' + 1 - (movedRow first count row + 1) by omega,
      hnext]
    cases (sheet.get? row column).filter (!·.isBlank) <;> rfl

variable {R : ε → ε' → Prop} {coerce : ScalarType → Cell → Except ε α}
  {coerce' : ScalarType → Cell → Except ε' α}

/-- Two ways to read cells that make the same of a cell and of the moved cell, or fail alike. -/
def ReadsMoved (R : ε → ε' → Prop) (first count : Nat) (coerce : ScalarType → Cell → Except ε α)
    (coerce' : ScalarType → Cell → Except ε' α) : Prop :=
  ∀ type cell, Related R Eq (coerce type cell) (coerce' type (cell.moveDown first count))

theorem related_readLeaf (h : sheet.Moved first count other)
    (hcoerce : ReadsMoved R first count coerce coerce') {field : Field} {type : ScalarType}
    {column start stop stop' : Nat} (hstop : Corresponds first count (stop + 1) (stop' + 1)) :
    Related R Eq (readLeaf coerce sheet field type column start stop)
      (readLeaf coerce' other field type column (movedRow first count start) stop') := by
  rw [readLeaf, readLeaf,
    columnCells_moveDown h hstop (corresponds_movedRow first count start), h.filter_get?]
  split
  · refine (Related.mapM fun cell _ => hcoerce type cell).bind ?_
    rintro values _ rfl
    exact .ok rfl
  · cases (sheet.get? start column).filter (!·.isBlank) with
    | none => exact .ok rfl
    | some cell => exact (hcoerce type cell).map fun a b hab => by rw [hab]

/-- What two walks read at corresponding rows: the same fields, up to corresponding rows. -/
def SameRecord (first count : Nat) (a b : Entries (Extracted α) × Nat) : Prop :=
  a.1 = b.1 ∧ Corresponds first count (a.2 + 1) (b.2 + 1)

/-- **Records are collected side by side** when each record is read alike. -/
theorem related_collect {isBlank isBlank' : Nat → Bool}
    {read : Nat → Except ε (Entries (Extracted α) × Nat)}
    {read' : Nat → Except ε' (Entries (Extracted α) × Nat)} {row row' stop stop' : Nat}
    (hmoved : ∀ row, isBlank' (movedRow first count row) = isBlank row)
    (hnew : ∀ row, first ≤ row → row < first + count → isBlank' row = true)
    (hread : ∀ row, row ≤ stop →
      Related R (SameRecord first count) (read row) (read' (movedRow first count row)))
    (hstop : Corresponds first count (stop + 1) (stop' + 1))
    (hrow : Corresponds first count row row') :
    Related R Eq (collect isBlank read row stop) (collect isBlank' read' row' stop') := by
  refine Corresponds.induction (motive := fun row row' =>
    Related R Eq (collect isBlank read row stop) (collect isBlank' read' row' stop')) hstop
    ?ended ?pass ?step row row' hrow
  case ended =>
    intro row row' hlt hlt'
    rw [collect_of_lt hlt, collect_of_lt hlt']
    exact .ok rfl
  case pass =>
    intro row row' h₁ h₂ hle ih
    rw [collect_of_isBlank hle (hnew row' h₁ h₂)]
    exact ih
  case step =>
    intro row hle hle' ih
    cases hblank : isBlank row with
    | true =>
      rw [collect_of_isBlank hle hblank, collect_of_isBlank hle' ((hmoved row).trans hblank)]
      exact ih _ _ (Nat.lt_succ_self row) (corresponds_succ first count row)
    | false =>
      rw [collect_of_filled hle hblank, collect_of_filled hle' ((hmoved row).trans hblank)]
      refine (hread row hle).bind ?_
      rintro ⟨fields, last⟩ ⟨-, last'⟩ ⟨rfl, hlast⟩
      refine (ih _ _ (by omega) ?_).bind ?_
      · simp only [Corresponds, movedRow] at hlast ⊢
        split <;> omega
      · rintro rest _ rfl
        exact .ok rfl

theorem related_readRecords (h : sheet.Moved first count other) {type : TypeTree} {layout : Layout}
    {row row' stop stop' : Nat}
    (hread : ∀ row, row ≤ stop → Related R (SameRecord first count)
      (readRecord coerce sheet type layout row stop)
      (readRecord coerce' other type layout (movedRow first count row) stop'))
    (hstop : Corresponds first count (stop + 1) (stop' + 1))
    (hrow : Corresponds first count row row') :
    Related R Eq (readRecords coerce sheet type layout row stop)
      (readRecords coerce' other type layout row' stop') :=
  related_collect (fun row => h.isBlankRow_movedRow row _ _) (fun _ => h.isBlankRow_new _ _) hread
    hstop hrow

/-- **At corresponding rows the same record is read**, and its last rows correspond. -/
theorem related_readRecord (h : sheet.Moved first count other)
    (hcoerce : ReadsMoved R first count coerce coerce') (layout : Layout) :
    ∀ {type : TypeTree} {start stop stop' : Nat}, start ≤ stop →
      Corresponds first count (stop + 1) (stop' + 1) →
      Related R (SameRecord first count) (readRecord coerce sheet type layout start stop)
        (readRecord coerce' other type layout (movedRow first count start) stop') := by
  induction layout using Layout.induction with
  | step layout ih =>
    intro type start stop stop' hle hstop
    have hend := corresponds_recordEnd h type layout.members hle hstop
    have hstart := (recordEnd_spec sheet type layout.members hle).1.1
    rw [readRecord_eq, readRecord_eq]
    refine (related_readFields (fun label hmem member _ => ?_) []).map fun a b hab => ⟨hab, hend⟩
    cases member with
    | leaf field scalar => exact related_readLeaf h hcoerce hend
    | composite field members =>
      rw [readField_composite, readField_composite]
      split
      · refine (related_readRecords h (fun row hrow => ih label hmem hrow hend) hend
          (corresponds_movedRow first count start)).map fun a b hab => by rw [hab]
      · exact (ih label hmem hstart hend).map fun a b hab => by rw [hab.1]

end Extraction

/-! ## Whole tables -/

namespace Sheet

/-- Below the last row there are no cells. -/
theorem isBlankRow_of_maxRow_lt {fileName name : String} {cells : List Cell} {row : Nat}
    (h : (ofCells fileName name cells).maxRow < row) (left right : Nat) :
    (ofCells fileName name cells).isBlankRow row left right = true :=
  isBlankRow_eq_true.2 fun _ _ _ => isBlank_of_get?_eq_none <|
    get?_ofCells_eq_none fileName name fun _ hc hat =>
      absurd (hat.1 ▸ row_le_maxRow_ofCells fileName name hc) (Nat.not_le_of_lt h)

theorem Moved.text_eq {first count : Nat} {sheet other : Sheet} (h : Moved first count sheet other)
    {row : Nat} (hrow : row < first) (column : Nat) :
    other.text row column = sheet.text row column := by
  have hget := h.get?_movedRow row column
  rw [movedRow_of_lt hrow] at hget
  rw [text, text, hget]
  cases sheet.get? row column <;> rfl

end Sheet

/-! The failures of a header are about no data cell, so they are the same ones. -/

section Header

variable {first count : Nat}

theorem related_overflow {α : Type} (x : Except DayOverflow α) :
    Related (MovedError first count) Eq (x.mapError TableError.overflow)
      (x.mapError TableError.overflow) := by
  cases x with
  | ok a => exact .ok rfl
  | error cause => exact .error (.other fun _ h => by cases h)

theorem HeaderScan.related_step (sheet : Sheet) (headerRows : Nat) (scan : HeaderScan)
    (position : Nat × Nat) :
    Related (MovedError first count) Eq (step sheet headerRows scan position)
      (step sheet headerRows scan position) := by
  have hlabel : ∀ (scan : HeaderScan) (name : String) (row column : Nat)
      (next : Layout → HeaderScan),
      Related (MovedError first count) Eq
        (do return next (← (labelAt sheet scan name row column).mapError TableError.overflow))
        (do return next (← (labelAt sheet scan name row column).mapError TableError.overflow)) :=
    fun scan name row column next => (related_overflow _).bind fun a b hab => .ok (by rw [hab])
  obtain ⟨row, column⟩ := position
  refine (related_overflow (sheet.text row column)).bind ?_
  rintro name _ rfl
  split
  · exact .ok rfl
  · split
    · exact .error (.other fun _ h => by cases h)
    · exact hlabel scan name row column scan.attach
    · exact hlabel scan name row column scan.descend
    · exact hlabel (scan.close 1) name row column (scan.close 1).descend
    · rename_i levels _
      exact hlabel (scan.close levels) name row column (scan.close levels).descend

theorem Layout.related_ofSheet (sheet : Sheet) (headerRows : Nat) :
    Related (MovedError first count) Eq (ofSheet sheet headerRows) (ofSheet sheet headerRows) := by
  have hfold : ∀ (positions : List (Nat × Nat)) (scan : HeaderScan),
      Related (MovedError first count) Eq
        (positions.foldlM (HeaderScan.step sheet headerRows) scan)
        (positions.foldlM (HeaderScan.step sheet headerRows) scan) := by
    intro positions
    induction positions with
    | nil => exact fun _ => .ok rfl
    | cons position rest ih =>
      intro scan
      rw [List.foldlM_cons]
      refine (HeaderScan.related_step sheet headerRows scan position).bind ?_
      rintro next _ rfl
      exact ih next
  refine (hfold _ _).bind ?_
  rintro scan _ rfl
  exact .ok rfl

mutual

theorem Layout.related_covers (layout : Layout) (path : String) : ∀ tree : TypeTree,
    Related (MovedError first count) Eq (layout.covers path tree) (layout.covers path tree)
  | .leaf .. => by
    rw [covers]
    exact .ok rfl
  | .composite _ members => by
    rw [covers]
    exact layout.related_coversAll path members

theorem Layout.related_coversAll (layout : Layout) (path : String) : ∀ members : List TypeTree,
    Related (MovedError first count) Eq (layout.coversAll path members)
      (layout.coversAll path members)
  | [] => by
    rw [coversAll]
    exact .ok rfl
  | member :: rest => by
    rw [coversAll]
    cases layout.member? member.name with
    | none => exact .error (.other fun _ h => by cases h)
    | some label =>
      exact (label.related_covers _ member).bind fun _ _ _ => layout.related_coversAll path rest

end

end Header

theorem readsMoved_coerceIn (first count : Nat) {sheet other : Sheet}
    (hfile : other.fileName = sheet.fileName) (hname : other.name = sheet.name) :
    Extraction.ReadsMoved (MovedError first count) first count (coerceIn sheet)
      (coerceIn other) := by
  intro type cell
  rw [coerceIn, coerceIn,
    Cell.coerce_congr type (a := cell.moveDown first count) (b := cell) rfl rfl, hfile, hname]
  cases cell.coerce type with
  | ok value => exact .ok rfl
  | error cause =>
    cases cause with
    | coercion cause => exact .error (.cell cell _ _ type cause)
    | overflow cause => exact .error (.other fun _ h => by cases h)

/-- The rows below a header are read side by side, from the first of them to the last row. -/
theorem Extraction.related_readTable (first count : Nat) (fileName name : String)
    (cells : List Cell) {type : TypeTree} (layout : Layout) {headerRows : Nat}
    (hfirst : headerRows < first) :
    Related (MovedError first count) Eq
      (readTable (coerceIn (Sheet.ofCells fileName name cells)) (Sheet.ofCells fileName name cells)
        type layout headerRows)
      (readTable
        (coerceIn (Sheet.ofCells fileName name (cells.map (Cell.moveDown first count))))
        (Sheet.ofCells fileName name (cells.map (Cell.moveDown first count)))
        type layout headerRows) := by
  have hmoved := Sheet.moved_ofCells first count fileName name cells
  have hmax := Sheet.maxRow_moveDown first count fileName name cells (by omega)
  have hcoerce : ReadsMoved (MovedError first count) first count
      (coerceIn (Sheet.ofCells fileName name cells))
      (coerceIn (Sheet.ofCells fileName name (cells.map (Cell.moveDown first count)))) :=
    readsMoved_coerceIn first count (by simp) (by simp)
  rw [readTable, readTable, hmax]
  have hstart : (headerRows + 1) % (Literal.maxCount + 1) ≤ first :=
    (Nat.mod_le _ _).trans hfirst
  generalize (headerRows + 1) % (Literal.maxCount + 1) = start at hstart ⊢
  by_cases hend : (Sheet.ofCells fileName name cells).maxRow < start
  · have hend' : movedRow first count (Sheet.ofCells fileName name cells).maxRow < start := by
      rwa [movedRow_of_lt (by omega)]
    rw [Nat.max_eq_right hend.le, Nat.max_eq_right hend'.le, readRecords, readRecords,
      collect_of_blank fun row h _ => Sheet.isBlankRow_of_maxRow_lt (hend.trans_le h) _ _,
      collect_of_blank fun row h _ =>
        Sheet.isBlankRow_of_maxRow_lt (hmax.trans_lt (hend'.trans_le h)) _ _]
    exact .ok rfl
  · have hstop : Corresponds first count ((Sheet.ofCells fileName name cells).maxRow + 1)
        (movedRow first count (Sheet.ofCells fileName name cells).maxRow + 1) :=
      corresponds_succ first count _
    have hrow : Corresponds first count start start := by
      unfold Corresponds
      omega
    have hle : start ≤ movedRow first count (Sheet.ofCells fileName name cells).maxRow := by
      simp only [movedRow]
      split <;> omega
    rw [Nat.max_eq_left (Nat.le_of_not_lt hend), Nat.max_eq_left hle]
    exact related_readRecords hmoved
      (fun row hrow => related_readRecord hmoved hcoerce layout hrow hstop) hstop hrow

/-- **Rows that are put in below the header change nothing.** The table is read from the one sheet
if and only if it is from the other, with the same records, and otherwise fails for the same reason;
a cell that cannot be read is named by the reference that it has moved to. -/
theorem extractTable_moveDown (fileName name : String) (cells : List Cell) {type : TypeTree}
    {first : Nat} (hfirst : type.maxDepth < first) (count : Nat) :
    (∀ records, extractTable (Sheet.ofCells fileName name cells) type = .ok records ↔
      extractTable (Sheet.ofCells fileName name (cells.map (Cell.moveDown first count))) type =
        .ok records) ∧
    ∀ e e', extractTable (Sheet.ofCells fileName name cells) type = .error e →
      extractTable (Sheet.ofCells fileName name (cells.map (Cell.moveDown first count))) type =
        .error e' →
      MovedError first count e e' := by
  have hmoved := Sheet.moved_ofCells first count fileName name cells
  have hlayout : Layout.ofSheet
      (Sheet.ofCells fileName name (cells.map (Cell.moveDown first count))) type.maxDepth =
      Layout.ofSheet (Sheet.ofCells fileName name cells) type.maxDepth :=
    Layout.ofSheet_congr (Sheet.maxColumn_moveDown first count fileName name cells)
      fun row column _ hrow => hmoved.text_eq (by omega) column
  have hrelated : Related (MovedError first count) Eq
      (extractTable (Sheet.ofCells fileName name cells) type)
      (extractTable (Sheet.ofCells fileName name (cells.map (Cell.moveDown first count)))
        type) := by
    rw [extractTable, extractTable, hlayout]
    refine (Layout.related_ofSheet _ _).bind ?_
    rintro layout _ rfl
    refine (layout.related_covers "" type).bind fun _ _ _ => ?_
    exact Extraction.related_readTable first count fileName name cells layout hfirst
  exact ⟨fun records => hrelated.ok_iff, fun e e' => hrelated.of_error⟩

namespace Stock

/-- Two rows within the first of the items, between its pieces. -/
theorem extractTable_movedItems :
    extractTable (Sheet.ofCells "stock.xlsx" "Stock"
      ((header ++ items).map (Cell.moveDown 6 2))) type = .ok [firstItem, secondItem] :=
  ((extractTable_moveDown "stock.xlsx" "Stock" (header ++ items)
    (show type.maxDepth < 6 by decide) 2).1 _).1 extractTable_items

end Stock

end TableExport
