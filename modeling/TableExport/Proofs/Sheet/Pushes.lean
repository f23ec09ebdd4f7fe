import TableExport.Proofs.Sheet.Region

/-!
# Pushing cells onto a sheet

A sheet is a map from positions to cells in which the last write wins, and its cells, its index and
its bounds stay in step (`Sheet.Keeps`): each push keeps this up (`Sheet.Keeps.push`), so it holds of
a sheet onto which cells were pushed in any order and number (`Sheet.keeps_pushed`).
-/

namespace TableExport.Sheet

/-- The row and the column of a cell. -/
def position (cell : Cell) : Nat × Nat := (cell.row, cell.column)

/-- The last of some cells at a position. -/
def lastAt (pushed : List Cell) (row column : Nat) : Option Cell :=
  (pushed.filter fun cell => IsAt row column cell).getLast?

/-- What a sheet holds when cells were pushed onto it, and how it keeps them. -/
structure Keeps (sheet : Sheet) (pushed : List Cell) : Prop where
  /-- A position holds the last cell that was pushed onto it. -/
  last : ∀ row column, sheet.get? row column = lastAt pushed row column
  /-- The cells are in the order in which their positions were first pushed onto. -/
  order : sheet.cells.toList.map position = (pushed.map position).eraseDups
  distinct : (sheet.cells.toList.map position).Nodup
  /-- The index leads from a position to the cell there, and from nowhere else to a cell. -/
  index : ∀ p i, sheet.index[p]? = some i ↔ sheet.cells[i]?.map position = some p
  maxRow : sheet.maxRow = (pushed.map Cell.row).max?.getD 0
  maxColumn : sheet.maxColumn = (pushed.map Cell.column).max?.getD 0

/-! ## Lists of cells -/

theorem lastAt_concat (pushed : List Cell) (cell : Cell) (row column : Nat) :
    lastAt (pushed ++ [cell]) row column =
      if IsAt row column cell then some cell else lastAt pushed row column := by
  rw [lastAt, List.filter_append]
  by_cases hat : IsAt row column cell <;> simp [lastAt, hat]

section

variable {α : Type} [BEq α] [LawfulBEq α] {items : List α} {item : α}

theorem eraseDups_concat_of_mem (h : item ∈ items) :
    (items ++ [item]).eraseDups = items.eraseDups := by
  rw [List.eraseDups_append, List.cons_removeAll, if_neg (by simpa using h)]
  exact List.append_nil _

theorem eraseDups_concat_of_not_mem (h : item ∉ items) :
    (items ++ [item]).eraseDups = items.eraseDups ++ [item] := by
  rw [List.eraseDups_append, List.cons_removeAll, if_pos (by simpa using h)]
  rfl

end

/-- The greatest of some numbers, 0 if there is none, when one more is put to them. -/
theorem max?_concat (numbers : List Nat) (number : Nat) :
    (numbers ++ [number]).max?.getD 0 = max (numbers.max?.getD 0) number := by
  have hfold : ∀ other : List Nat, other.foldl max 0 = other.max?.getD 0 := fun other => by
    rw [List.foldl_max, Nat.zero_max]
  rw [← hfold, ← hfold, List.foldl_append]
  rfl

namespace Keeps

variable {sheet : Sheet} {pushed : List Cell}

theorem indexed (h : sheet.Keeps pushed) : sheet.Indexed := by
  intro p i hi
  obtain ⟨cell, hcell, hposition⟩ := Option.map_eq_some_iff.1 ((h.index p i).1 hi)
  exact ⟨cell, hcell, hposition⟩

/-- A position is in the index when a cell was pushed onto it. -/
theorem mem_positions_iff (h : sheet.Keeps pushed) (p : Nat × Nat) :
    p ∈ pushed.map position ↔ ∃ i, sheet.index[p]? = some i := by
  rw [← List.mem_eraseDups, ← h.order, List.mem_iff_getElem?]
  simp only [h.index, List.getElem?_map, Array.getElem?_toList]

/-- A push onto a position that holds a cell leaves each cell where it stands. -/
theorem getElem?_push_of_some (h : sheet.Keeps pushed) {cell : Cell} {i : Nat}
    (hi : sheet.index[position cell]? = some i) (j : Nat) :
    (sheet.push cell).cells[j]?.map position = sheet.cells[j]?.map position := by
  rw [push_of_some hi]
  by_cases hij : i = j
  · subst hij
    rw [(h.index _ _).1 hi, Array.getElem?_setIfInBounds_self_of_lt (h.indexed.lt_size hi)]
    rfl
  · rw [Array.getElem?_setIfInBounds_ne hij]

theorem positions_push_of_some (h : sheet.Keeps pushed) {cell : Cell} {i : Nat}
    (hi : sheet.index[position cell]? = some i) :
    (sheet.push cell).cells.toList.map position = sheet.cells.toList.map position := by
  apply List.ext_getElem?
  intro j
  simpa only [List.getElem?_map, Array.getElem?_toList] using h.getElem?_push_of_some hi j

theorem positions_push_of_none {cell : Cell} (hi : sheet.index[position cell]? = none) :
    (sheet.push cell).cells.toList.map position =
      sheet.cells.toList.map position ++ [position cell] := by
  rw [push_of_none hi]
  simp

/-- A push onto a new position keeps the index right. -/
theorem index_push_of_none (h : sheet.Keeps pushed) {cell : Cell}
    (hi : sheet.index[position cell]? = none) (p : Nat × Nat) (j : Nat) :
    (sheet.push cell).index[p]? = some j ↔
      (sheet.push cell).cells[j]?.map position = some p := by
  rw [push_of_none hi]
  simp only [Std.HashMap.getElem?_insert, Array.getElem?_push, beq_iff_eq]
  by_cases hp : position cell = p
  · rw [if_pos (show (cell.row, cell.column) = p from hp)]
    have hold : sheet.cells[j]?.map position ≠ some p := fun hcell => by
      rw [← h.index, ← hp, hi] at hcell
      cases hcell
    by_cases hj : j = sheet.cells.size
    · simp [hj, hp]
    · simp [hj, hold, Ne.symm hj]
  · rw [if_neg (show ¬ (cell.row, cell.column) = p from hp)]
    by_cases hj : j = sheet.cells.size
    · have hold : sheet.index[p]? ≠ some j := fun hindex =>
        (h.indexed.lt_size hindex).ne hj
      simp [hj, hp, hj ▸ hold]
    · rw [if_neg hj]
      exact h.index p j

/-- **A push keeps the sheet in step.** -/
theorem push (h : sheet.Keeps pushed) (cell : Cell) :
    (sheet.push cell).Keeps (pushed ++ [cell]) := by
  have hlast : ∀ row column,
      (sheet.push cell).get? row column = lastAt (pushed ++ [cell]) row column := by
    intro row column
    rw [get?_push h.indexed, lastAt_concat, h.last]
  have hrow : (sheet.push cell).maxRow = ((pushed ++ [cell]).map Cell.row).max?.getD 0 := by
    rw [maxRow_push, h.maxRow, List.map_append, List.map_singleton, max?_concat]
  have hcolumn : (sheet.push cell).maxColumn =
      ((pushed ++ [cell]).map Cell.column).max?.getD 0 := by
    rw [maxColumn_push, h.maxColumn, List.map_append, List.map_singleton, max?_concat]
  have hmem := h.mem_positions_iff (position cell)
  cases hi : sheet.index[position cell]? with
  | some i =>
    -- the cell takes the place of the one at its position
    have hpositions := h.positions_push_of_some hi
    refine ⟨hlast, ?_, ?_, fun p j => ?_, hrow, hcolumn⟩
    · rw [hpositions, h.order, List.map_append, List.map_singleton,
        eraseDups_concat_of_mem (hmem.2 ⟨i, hi⟩)]
    · rw [hpositions]
      exact h.distinct
    · rw [h.getElem?_push_of_some hi, push_of_some hi]
      exact h.index p j
  | none =>
    -- the cell comes after the others, at a new position
    have hpositions := positions_push_of_none hi
    have hnew : position cell ∉ pushed.map position := by
      rw [hmem, hi]
      rintro ⟨_, ⟨⟩⟩
    refine ⟨hlast, ?_, ?_, fun p j => ?_, hrow, hcolumn⟩
    · rw [hpositions, h.order, List.map_append, List.map_singleton,
        eraseDups_concat_of_not_mem hnew]
    · rw [hpositions, List.nodup_append, h.order]
      refine ⟨h.order ▸ h.distinct, List.nodup_singleton _, fun p hp q hq => ?_⟩
      rw [List.mem_eraseDups] at hp
      rw [List.mem_singleton.1 hq]
      rintro rfl
      exact hnew hp
    · exact h.index_push_of_none hi p j

end Keeps

/-- **A sheet is a map in which the last write wins.** Whatever cells are pushed onto it, a position
holds the last one pushed there, the cells are kept once each in the order of their first pushes,
the index and the bounds are right, and a row is blank in some columns just when the last cells
pushed there are. -/
theorem keeps_pushed (fileName name : String) (pushed : List Cell) :
    (ofCells fileName name pushed).Keeps pushed ∧
    ∀ row first last, (ofCells fileName name pushed).isBlankRow row first last = true ↔
      ∀ column, first ≤ column → column ≤ last →
        ∀ cell ∈ lastAt pushed row column, cell.isBlank = true := by
  have hkeeps : (ofCells fileName name pushed).Keeps pushed := by
    induction pushed using List.reverseRecOn with
    | nil => exact ⟨by simp [ofCells, empty, get?, lastAt], rfl, List.nodup_nil,
        by simp [ofCells, empty], rfl, rfl⟩
    | append_singleton pushed cell ih =>
      rw [ofCells_concat]
      exact ih.push cell
  refine ⟨hkeeps, fun row first last => ?_⟩
  rw [isBlankRow_eq_true]
  refine forall_congr' fun column => forall_congr' fun _ => forall_congr' fun _ => ?_
  rw [isBlank, hkeeps.last]
  cases lastAt pushed row column <;> simp

end TableExport.Sheet
