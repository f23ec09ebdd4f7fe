import Mathlib
import TableExport.Sheet

/-!
# What a sheet holds

A sheet keeps its cells twice over: in the order in which their positions were first pushed, and by
position. `Sheet.Indexed` says that the two agree. It holds of every sheet that is made by pushing
cells, and from it a push changes what its own position holds and nothing else (`get?_push`).

* `get?_ofCells`: a position holds the last cell that was pushed onto it.
* `get?_ofCells_of_mem`: a cell of a list in which no two cells share a position is found there.
* `row_le_maxRow_ofCells`, `maxColumn_ofCells`: the cells lie within the bounds of the sheet, which
  are not wider than needed.
-/

namespace TableExport.Sheet

/-! ## Positions -/

/-- Whether a cell stands at a position. -/
def IsAt (row column : Nat) (cell : Cell) : Prop := cell.row = row ∧ cell.column = column

instance (row column : Nat) : DecidablePred (IsAt row column) :=
  fun _ => inferInstanceAs (Decidable (_ ∧ _))

/-- The index of a sheet leads to cells of the sheet, each at its own position. -/
def Indexed (sheet : Sheet) : Prop :=
  ∀ position i, sheet.index[position]? = some i →
    ∃ cell : Cell, sheet.cells[i]? = some cell ∧ (cell.row, cell.column) = position

theorem indexed_empty (fileName name : String) : (empty fileName name).Indexed := by
  intro position i h
  simp [empty] at h

/-- In an indexed sheet two positions with the same index are the same. -/
theorem Indexed.position_unique {sheet : Sheet} (h : sheet.Indexed) {p q : Nat × Nat} {i : Nat}
    (hp : sheet.index[p]? = some i) (hq : sheet.index[q]? = some i) : p = q := by
  obtain ⟨cell, hcell, rfl⟩ := h p i hp
  obtain ⟨other, hother, rfl⟩ := h q i hq
  rw [hcell] at hother
  cases hother
  rfl

theorem Indexed.lt_size {sheet : Sheet} (h : sheet.Indexed) {p : Nat × Nat} {i : Nat}
    (hp : sheet.index[p]? = some i) : i < sheet.cells.size := by
  obtain ⟨cell, hcell, -⟩ := h p i hp
  exact (Array.getElem?_eq_some_iff.1 hcell).1

/-! ## Pushing a cell -/

theorem push_of_some {sheet : Sheet} {cell : Cell} {i : Nat}
    (hi : sheet.index[(cell.row, cell.column)]? = some i) :
    sheet.push cell = { sheet with
      cells := sheet.cells.setIfInBounds i cell
      maxRow := max sheet.maxRow cell.row
      maxColumn := max sheet.maxColumn cell.column } := by
  simp only [push, hi]

theorem push_of_none {sheet : Sheet} {cell : Cell}
    (hi : sheet.index[(cell.row, cell.column)]? = none) :
    sheet.push cell = { sheet with
      cells := sheet.cells.push cell
      index := sheet.index.insert (cell.row, cell.column) sheet.cells.size
      maxRow := max sheet.maxRow cell.row
      maxColumn := max sheet.maxColumn cell.column } := by
  simp only [push, hi]

@[simp] theorem fileName_push (sheet : Sheet) (cell : Cell) :
    (sheet.push cell).fileName = sheet.fileName := by
  cases hi : sheet.index[(cell.row, cell.column)]? with
  | none => rw [push_of_none hi]
  | some i => rw [push_of_some hi]

@[simp] theorem name_push (sheet : Sheet) (cell : Cell) :
    (sheet.push cell).name = sheet.name := by
  cases hi : sheet.index[(cell.row, cell.column)]? with
  | none => rw [push_of_none hi]
  | some i => rw [push_of_some hi]

@[simp] theorem maxRow_push (sheet : Sheet) (cell : Cell) :
    (sheet.push cell).maxRow = max sheet.maxRow cell.row := by
  cases hi : sheet.index[(cell.row, cell.column)]? with
  | none => rw [push_of_none hi]
  | some i => rw [push_of_some hi]

@[simp] theorem maxColumn_push (sheet : Sheet) (cell : Cell) :
    (sheet.push cell).maxColumn = max sheet.maxColumn cell.column := by
  cases hi : sheet.index[(cell.row, cell.column)]? with
  | none => rw [push_of_none hi]
  | some i => rw [push_of_some hi]

/-- A push keeps a sheet indexed. -/
theorem Indexed.push {sheet : Sheet} (h : sheet.Indexed) (cell : Cell) :
    (sheet.push cell).Indexed := by
  intro position j hj
  cases hi : sheet.index[(cell.row, cell.column)]? with
  | some i =>
    rw [push_of_some hi] at hj ⊢
    obtain ⟨old, hold, hposition⟩ := h position j hj
    by_cases hij : i = j
    · subst hij
      refine ⟨cell, ?_, h.position_unique hi hj⟩
      rw [Array.getElem?_setIfInBounds_self_of_lt (h.lt_size hi)]
    · refine ⟨old, ?_, hposition⟩
      rw [Array.getElem?_setIfInBounds_ne hij]
      exact hold
  | none =>
    rw [push_of_none hi] at hj ⊢
    rw [Std.HashMap.getElem?_insert] at hj
    by_cases hp : (cell.row, cell.column) = position
    · rw [if_pos (by simpa using hp)] at hj
      cases hj
      exact ⟨cell, Array.getElem?_push_size, hp⟩
    · rw [if_neg (by simpa using hp)] at hj
      obtain ⟨old, hold, hposition⟩ := h position j hj
      refine ⟨old, ?_, hposition⟩
      rw [Array.getElem?_push_lt (h.lt_size hj)]
      rw [← hold, Array.getElem?_eq_getElem (h.lt_size hj)]

/-- **A push changes what its own position holds and nothing else.** -/
theorem get?_push {sheet : Sheet} (h : sheet.Indexed) (cell : Cell) (row column : Nat) :
    (sheet.push cell).get? row column =
      if IsAt row column cell then some cell else sheet.get? row column := by
  cases hi : sheet.index[(cell.row, cell.column)]? with
  | some i =>
    rw [push_of_some hi]
    by_cases hat : IsAt row column cell
    · obtain ⟨rfl, rfl⟩ := hat
      simp only [get?, hi, Option.bind_some, IsAt, and_self, if_true]
      exact Array.getElem?_setIfInBounds_self_of_lt (h.lt_size hi)
    · rw [if_neg hat]
      simp only [get?]
      cases hj : sheet.index[(row, column)]? with
      | none => rfl
      | some j =>
        have hij : i ≠ j := by
          rintro rfl
          exact hat (Prod.mk.inj (h.position_unique hi hj))
        simp only [Option.bind_some, Array.getElem?_setIfInBounds_ne hij]
  | none =>
    rw [push_of_none hi]
    simp only [get?, Std.HashMap.getElem?_insert]
    by_cases hat : IsAt row column cell
    · obtain ⟨rfl, rfl⟩ := hat
      simp [IsAt]
    · have hp : ((cell.row, cell.column) == (row, column)) = false := by
        simpa [IsAt, Prod.ext_iff] using hat
      rw [if_neg hat, hp]
      simp only [Bool.false_eq_true, if_false]
      cases hj : sheet.index[(row, column)]? with
      | none => rfl
      | some j =>
        simp only [Option.bind_some]
        rw [Array.getElem?_push_lt (h.lt_size hj), Array.getElem?_eq_getElem (h.lt_size hj)]

/-! ## Sheets of cells -/

theorem ofCells_concat (fileName name : String) (cells : List Cell) (cell : Cell) :
    ofCells fileName name (cells ++ [cell]) = (ofCells fileName name cells).push cell := by
  simp [ofCells, List.foldl_append]

@[simp] theorem fileName_ofCells (fileName name : String) (cells : List Cell) :
    (ofCells fileName name cells).fileName = fileName := by
  induction cells using List.reverseRecOn with
  | nil => rfl
  | append_singleton cells cell ih => rw [ofCells_concat, fileName_push, ih]

@[simp] theorem name_ofCells (fileName name : String) (cells : List Cell) :
    (ofCells fileName name cells).name = name := by
  induction cells using List.reverseRecOn with
  | nil => rfl
  | append_singleton cells cell ih => rw [ofCells_concat, name_push, ih]

theorem indexed_ofCells (fileName name : String) (cells : List Cell) :
    (ofCells fileName name cells).Indexed := by
  induction cells using List.reverseRecOn with
  | nil => exact indexed_empty fileName name
  | append_singleton cells cell ih =>
    rw [ofCells_concat]
    exact ih.push cell

/-- **A position holds the last cell that was pushed onto it.** -/
theorem get?_ofCells (fileName name : String) (cells : List Cell) (row column : Nat) :
    (ofCells fileName name cells).get? row column =
      cells.reverse.find? (fun cell => IsAt row column cell) := by
  induction cells using List.reverseRecOn with
  | nil => simp [ofCells, empty, get?]
  | append_singleton cells cell ih =>
    rw [ofCells_concat, get?_push (indexed_ofCells fileName name cells), ih,
      List.reverse_concat, List.find?_cons]
    by_cases hat : IsAt row column cell
    · simp [hat]
    · simp [hat]

/-- No two cells of a list share a position. -/
def Separate (cells : List Cell) : Prop :=
  ∀ a ∈ cells, ∀ b ∈ cells, a.row = b.row → a.column = b.column → a = b

theorem Separate.of_perm {cells other : List Cell} (h : Separate cells) (hp : other.Perm cells) :
    Separate other :=
  fun a ha b hb => h a (hp.mem_iff.1 ha) b (hp.mem_iff.1 hb)

/-- Lists are separate together when they are separate apart and share no position. -/
theorem separate_append {first second : List Cell} (h₁ : Separate first) (h₂ : Separate second)
    (h : ∀ a ∈ first, ∀ b ∈ second, a.row = b.row → a.column ≠ b.column) :
    Separate (first ++ second) := by
  intro a ha b hb hrow hcolumn
  rcases List.mem_append.1 ha with ha | ha <;> rcases List.mem_append.1 hb with hb | hb
  · exact h₁ a ha b hb hrow hcolumn
  · exact absurd hcolumn (h a ha b hb hrow)
  · exact absurd hcolumn.symm (h b hb a ha hrow.symm)
  · exact h₂ a ha b hb hrow hcolumn

/-- A cell of a separate list is found at its position. -/
theorem get?_ofCells_of_mem {cells : List Cell} (h : Separate cells) (fileName name : String)
    {cell : Cell} (hc : cell ∈ cells) :
    (ofCells fileName name cells).get? cell.row cell.column = some cell := by
  rw [get?_ofCells]
  have hfound : (cells.reverse.find? fun other => IsAt cell.row cell.column other).isSome := by
    rw [List.find?_isSome]
    exact ⟨cell, List.mem_reverse.2 hc, by simp [IsAt]⟩
  obtain ⟨other, hother⟩ := Option.isSome_iff_exists.1 hfound
  have hat : IsAt cell.row cell.column other := by simpa using List.find?_some hother
  have hmem : other ∈ cells := List.mem_reverse.1 (List.mem_of_find?_eq_some hother)
  rw [hother, h other hmem cell hc hat.1 hat.2]

/-- A position without a cell holds nothing. -/
theorem get?_ofCells_eq_none {cells : List Cell} (fileName name : String) {row column : Nat}
    (h : ∀ cell ∈ cells, ¬ IsAt row column cell) :
    (ofCells fileName name cells).get? row column = none := by
  rw [get?_ofCells, List.find?_eq_none]
  intro cell hc
  simpa using h cell (List.mem_reverse.1 hc)

/-- No cell lies below the last row. -/
theorem row_le_maxRow_ofCells (fileName name : String) {cells : List Cell} {cell : Cell}
    (hc : cell ∈ cells) : cell.row ≤ (ofCells fileName name cells).maxRow := by
  induction cells using List.reverseRecOn with
  | nil => cases hc
  | append_singleton cells last ih =>
    rw [ofCells_concat, maxRow_push]
    rcases List.mem_append.1 hc with hc | hc
    · exact (ih hc).trans (le_max_left _ _)
    · rw [List.mem_singleton.1 hc]
      exact le_max_right _ _

/-- No cell lies to the right of the last column. -/
theorem column_le_maxColumn_ofCells (fileName name : String) {cells : List Cell} {cell : Cell}
    (hc : cell ∈ cells) : cell.column ≤ (ofCells fileName name cells).maxColumn := by
  induction cells using List.reverseRecOn with
  | nil => cases hc
  | append_singleton cells last ih =>
    rw [ofCells_concat, maxColumn_push]
    rcases List.mem_append.1 hc with hc | hc
    · exact (ih hc).trans (le_max_left _ _)
    · rw [List.mem_singleton.1 hc]
      exact le_max_right _ _

/-- The last column is no further right than the cells. -/
theorem maxColumn_ofCells_le (fileName name : String) {cells : List Cell} {bound : Nat}
    (h : ∀ cell ∈ cells, cell.column ≤ bound) : (ofCells fileName name cells).maxColumn ≤ bound := by
  induction cells using List.reverseRecOn with
  | nil => exact Nat.zero_le _
  | append_singleton cells last ih =>
    rw [ofCells_concat, maxColumn_push]
    exact max_le (ih fun c hc => h c (List.mem_append_left _ hc)) (h last (by simp))

/-- The last column is that of the cells when one of them reaches a bound on all of them. -/
theorem maxColumn_ofCells (fileName name : String) {cells : List Cell} {bound : Nat}
    (hle : ∀ cell ∈ cells, cell.column ≤ bound) {cell : Cell} (hc : cell ∈ cells)
    (hcell : cell.column = bound) : (ofCells fileName name cells).maxColumn = bound := by
  have hlower := column_le_maxColumn_ofCells fileName name hc
  exact le_antisymm (maxColumn_ofCells_le fileName name hle) (hcell ▸ hlower)

/-- The last row is the greatest one of a cell. -/
theorem maxRow_eq_foldl (fileName name : String) (cells : List Cell) :
    (ofCells fileName name cells).maxRow = (cells.map Cell.row).foldl max 0 := by
  induction cells using List.reverseRecOn with
  | nil => rfl
  | append_singleton cells last ih =>
    rw [ofCells_concat, maxRow_push, ih, List.map_append, List.foldl_append]
    rfl

/-- The last column is the greatest one of a cell. -/
theorem maxColumn_eq_foldl (fileName name : String) (cells : List Cell) :
    (ofCells fileName name cells).maxColumn = (cells.map Cell.column).foldl max 0 := by
  induction cells using List.reverseRecOn with
  | nil => rfl
  | append_singleton cells last ih =>
    rw [ofCells_concat, maxColumn_push, ih, List.map_append, List.foldl_append]
    rfl

/-- The cells of a sheet were pushed onto it. -/
theorem mem_of_mem_ofCells {fileName name : String} {cells : List Cell} {cell : Cell}
    (h : cell ∈ (ofCells fileName name cells).cells) : cell ∈ cells := by
  induction cells using List.reverseRecOn with
  | nil =>
    simp only [ofCells, List.foldl_nil, empty] at h
    exact absurd h (Array.not_mem_empty cell)
  | append_singleton cells last ih =>
    rw [ofCells_concat] at h
    have hcases : cell ∈ (ofCells fileName name cells).cells ∨ cell = last := by
      cases hi : (ofCells fileName name cells).index[(last.row, last.column)]? with
      | none =>
        rw [push_of_none hi] at h
        exact Array.mem_push.1 h
      | some i =>
        rw [push_of_some hi] at h
        exact Array.mem_or_eq_of_mem_setIfInBounds h
    rcases hcases with h | rfl
    · exact List.mem_append_left _ (ih h)
    · exact List.mem_append_right _ (List.mem_singleton_self _)

/-- A sheet whose cells are changed holds the changed cells. -/
theorem get?_map (sheet : Sheet) (f : Cell → Cell) (row column : Nat) :
    ({ sheet with cells := sheet.cells.map f } : Sheet).get? row column =
      (sheet.get? row column).map f := by
  simp only [get?]
  cases sheet.index[(row, column)]? with
  | none => rfl
  | some i => simp only [Option.bind_some, Array.getElem?_map]

end TableExport.Sheet
