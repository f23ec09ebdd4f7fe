import TableExport.Proofs.Sheet.Contents

/-!
# Regions of a sheet

A region is a range of rows, both ends included, and a range of columns without its right end.
`Sheet.Holds` says that a region holds the cells of a list, each with a value, and is blank
elsewhere. A region that holds two lists, one beside or below the other, can be cut between them
(`Holds.beside`, `Holds.above`), and this is how what is known of a whole sheet is taken apart along
the fields and the records of a table.
-/

namespace TableExport.Sheet

/-- The rows from `top` through `bottom` of the columns from `left` on and before `right` hold the
cells of a list, and are blank elsewhere. -/
structure Holds (sheet : Sheet) (cells : List Cell) (top bottom left right : Nat) : Prop where
  inside : ∀ cell ∈ cells, top ≤ cell.row ∧ cell.row ≤ bottom ∧ left ≤ cell.column ∧
    cell.column < right
  shown : ∀ cell ∈ cells, sheet.get? cell.row cell.column = some cell
  filled : ∀ cell ∈ cells, cell.isBlank = false
  blank : ∀ row column, top ≤ row → row ≤ bottom → left ≤ column → column < right →
    (∀ cell ∈ cells, ¬ IsAt row column cell) → sheet.isBlank row column = true

theorem isBlank_of_get?_eq_none {sheet : Sheet} {row column : Nat}
    (h : sheet.get? row column = none) : sheet.isBlank row column = true := by
  simp [isBlank, h]

theorem isBlank_of_get?_eq_some {sheet : Sheet} {row column : Nat} {cell : Cell}
    (h : sheet.get? row column = some cell) : sheet.isBlank row column = cell.isBlank := by
  simp [isBlank, h]

/-- The cell with a value at a blank position: there is none. -/
theorem filter_get?_of_isBlank {sheet : Sheet} {row column : Nat}
    (h : sheet.isBlank row column = true) :
    (sheet.get? row column).filter (!·.isBlank) = none := by
  cases hget : sheet.get? row column with
  | none => rfl
  | some cell =>
    rw [isBlank_of_get?_eq_some hget] at h
    simp [h]

/-- A row is blank when its positions are. -/
theorem isBlankSpan_eq_true {sheet : Sheet} {row column count : Nat} :
    sheet.isBlankSpan row column count = true ↔
      ∀ other, column ≤ other → other < column + count → sheet.isBlank row other = true := by
  induction count generalizing column with
  | zero =>
    simp only [isBlankSpan, true_iff]
    intro other h₁ h₂
    omega
  | succ count ih =>
    simp only [isBlankSpan, Bool.and_eq_true, ih]
    constructor
    · rintro ⟨h, hrest⟩ other h₁ h₂
      by_cases heq : other = column
      · exact heq ▸ h
      · exact hrest other (by omega) (by omega)
    · intro h
      exact ⟨h column (le_refl _) (by omega), fun other h₁ h₂ => h other (by omega) (by omega)⟩

theorem isBlankRow_eq_true {sheet : Sheet} {row first last : Nat} :
    sheet.isBlankRow row first last = true ↔
      ∀ column, first ≤ column → column ≤ last → sheet.isBlank row column = true := by
  rw [isBlankRow, isBlankSpan_eq_true]
  constructor
  · intro h column h₁ h₂
    exact h column h₁ (by omega)
  · intro h column h₁ h₂
    exact h column h₁ (by omega)

/-! ## Sheets of cells -/

/-- A sheet of separate cells with values holds them in any region that they lie in. -/
theorem holds_ofCells {cells : List Cell} (hs : Separate cells)
    (hfilled : ∀ cell ∈ cells, cell.isBlank = false) (fileName name : String)
    {top bottom left right : Nat} (hinside : ∀ cell ∈ cells, top ≤ cell.row ∧
      cell.row ≤ bottom ∧ left ≤ cell.column ∧ cell.column < right) :
    (ofCells fileName name cells).Holds cells top bottom left right where
  inside := hinside
  shown _ hc := get?_ofCells_of_mem hs fileName name hc
  filled := hfilled
  blank _ _ _ _ _ _ h := isBlank_of_get?_eq_none (get?_ofCells_eq_none fileName name h)

namespace Holds

variable {sheet : Sheet} {cells first second : List Cell} {top bottom left right : Nat}

theorem of_perm {other : List Cell} (h : sheet.Holds cells top bottom left right)
    (hp : other.Perm cells) : sheet.Holds other top bottom left right where
  inside cell hc := h.inside cell (hp.mem_iff.1 hc)
  shown cell hc := h.shown cell (hp.mem_iff.1 hc)
  filled cell hc := h.filled cell (hp.mem_iff.1 hc)
  blank row column h₁ h₂ h₃ h₄ hat :=
    h.blank row column h₁ h₂ h₃ h₄ fun cell hc => hat cell (hp.mem_iff.2 hc)

/-- The cells of a region that lie in a part of it are what the part holds, if the others do not
lie in it. -/
theorem restrict (h : sheet.Holds (first ++ second) top bottom left right)
    {top' bottom' left' right' : Nat}
    (hrange : top ≤ top' ∧ bottom' ≤ bottom ∧ left ≤ left' ∧ right' ≤ right)
    (hinside : ∀ cell ∈ first, top' ≤ cell.row ∧ cell.row ≤ bottom' ∧ left' ≤ cell.column ∧
      cell.column < right')
    (houtside : ∀ cell ∈ second, cell.row < top' ∨ bottom' < cell.row ∨ cell.column < left' ∨
      right' ≤ cell.column) : sheet.Holds first top' bottom' left' right' where
  inside := hinside
  shown cell hc := h.shown cell (List.mem_append_left _ hc)
  filled cell hc := h.filled cell (List.mem_append_left _ hc)
  blank row column h₁ h₂ h₃ h₄ hat := by
    apply h.blank row column (by omega) (by omega) (by omega) (by omega)
    intro cell hc
    rcases List.mem_append.1 hc with hc | hc
    · exact hat cell hc
    · rintro ⟨rfl, rfl⟩
      have := houtside cell hc
      omega

/-- Two lists of cells, one to the left of a column and one from it on, lie beside each other. -/
theorem beside (h : sheet.Holds (first ++ second) top bottom left right) (middle : Nat)
    (hmiddle : left ≤ middle ∧ middle ≤ right) (hfirst : ∀ cell ∈ first, cell.column < middle)
    (hsecond : ∀ cell ∈ second, middle ≤ cell.column) :
    sheet.Holds first top bottom left middle ∧ sheet.Holds second top bottom middle right := by
  have hin := h.inside
  constructor
  · apply h.restrict (by omega)
    · intro cell hc
      have := hin cell (List.mem_append_left _ hc)
      have := hfirst cell hc
      omega
    · intro cell hc
      have := hsecond cell hc
      omega
  · apply (h.of_perm List.perm_append_comm).restrict (by omega)
    · intro cell hc
      have := hin cell (List.mem_append_right _ hc)
      have := hsecond cell hc
      omega
    · intro cell hc
      have := hfirst cell hc
      omega

/-- Two lists of cells, one above a row and one from it on, lie above each other. The upper region
ends before the row or where the whole region ends. -/
theorem above (h : sheet.Holds (first ++ second) top bottom left right) (middle : Nat)
    (hmiddle : top ≤ middle) (hfirst : ∀ cell ∈ first, cell.row < middle)
    (hsecond : ∀ cell ∈ second, middle ≤ cell.row) :
    (∀ last, last < middle → last ≤ bottom → (∀ cell ∈ first, cell.row ≤ last) →
      sheet.Holds first top last left right) ∧ sheet.Holds second middle bottom left right := by
  have hin := h.inside
  constructor
  · intro last hlast hbottom hle
    apply h.restrict (by omega)
    · intro cell hc
      have := hin cell (List.mem_append_left _ hc)
      have := hle cell hc
      omega
    · intro cell hc
      have := hsecond cell hc
      omega
  · apply (h.of_perm List.perm_append_comm).restrict (by omega)
    · intro cell hc
      have := hin cell (List.mem_append_right _ hc)
      have := hsecond cell hc
      omega
    · intro cell hc
      have := hfirst cell hc
      omega

/-- What a region holds is found there as a cell with a value. -/
theorem filter_get? (h : sheet.Holds cells top bottom left right) {cell : Cell}
    (hc : cell ∈ cells) :
    (sheet.get? cell.row cell.column).filter (!·.isBlank) = some cell := by
  rw [h.shown cell hc]
  simp [h.filled cell hc]

theorem isBlank_eq_false (h : sheet.Holds cells top bottom left right) {cell : Cell}
    (hc : cell ∈ cells) : sheet.isBlank cell.row cell.column = false := by
  rw [isBlank_of_get?_eq_some (h.shown cell hc), h.filled cell hc]

/-- A region without cells is blank. -/
theorem isBlank_of_nil (h : sheet.Holds [] top bottom left right) {row column : Nat}
    (h₁ : top ≤ row) (h₂ : row ≤ bottom) (h₃ : left ≤ column) (h₄ : column < right) :
    sheet.isBlank row column = true :=
  h.blank row column h₁ h₂ h₃ h₄ (by simp)

end Holds

end TableExport.Sheet
