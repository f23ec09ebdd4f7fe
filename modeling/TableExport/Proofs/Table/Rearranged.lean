import TableExport.Proofs.Table.BlockScan

/-!
# Sheets with their blocks in another order

The cells of a sheet whose header consists of blocks are moved with their columns, block by block
(`Sheet.Rearranged`, `Sheet.rearranged_ofCells`). The header of the new sheet is scanned into the
same labels in their new columns (`Layout.exists_ofSheet_rearranged`).
-/

namespace TableExport

open Layout HeaderScan

/-- A cell in the column that its column moves to. -/
def Cell.moveColumn (move : Nat → Nat) (cell : Cell) : Cell :=
  { cell with column := move cell.column }

namespace Sheet

/-! ## Moved cells -/

/-- The second sheet holds the cells of the first one in the columns that theirs go to, and nothing
else. Both sheets end at their last cells. -/
structure Rearranged (move : Nat → Nat) (sheet other : Sheet) : Prop where
  get?_move (row column : Nat) :
    other.get? row (move column) = (sheet.get? row column).map (Cell.moveColumn move)
  get?_new {row column : Nat} : (∀ old, move old ≠ column) → other.get? row column = none
  le_maxColumn {row column : Nat} {cell : Cell} : sheet.get? row column = some cell →
    column ≤ sheet.maxColumn
  le_maxColumn' {row column : Nat} {cell : Cell} : other.get? row column = some cell →
    column ≤ other.maxColumn
  maxColumn_le : other.maxColumn ≤ sheet.maxColumn
  maxRow_eq : other.maxRow = sheet.maxRow

theorem le_maxColumn_of_get? {fileName name : String} {cells : List Cell} {row column : Nat}
    {cell : Cell} (h : (ofCells fileName name cells).get? row column = some cell) :
    column ≤ (ofCells fileName name cells).maxColumn := by
  rw [get?_ofCells] at h
  have hat : IsAt row column cell := by simpa using List.find?_some h
  rw [← hat.2]
  exact column_le_maxColumn_ofCells fileName name (List.mem_reverse.1 (List.mem_of_find?_eq_some h))

/-- The sheet of moved cells. -/
theorem rearranged_ofCells {move : Nat → Nat} (fileName name : String) (cells : List Cell)
    (hmove : Function.Injective move)
    (hle : ∀ column, column ≤ (ofCells fileName name cells).maxColumn →
      move column ≤ (ofCells fileName name cells).maxColumn) :
    Rearranged move (ofCells fileName name cells)
      (ofCells fileName name (cells.map (Cell.moveColumn move))) where
  get?_move row column := by
    rw [get?_ofCells, get?_ofCells, ← List.map_reverse, List.find?_map]
    congr 2
    funext cell
    exact decide_eq_decide.2 (and_congr_right' hmove.eq_iff)
  get?_new h := by
    refine get?_ofCells_eq_none _ _ fun cell hc => ?_
    obtain ⟨cell, -, rfl⟩ := List.mem_map.1 hc
    exact fun hat => h cell.column hat.2
  le_maxColumn := le_maxColumn_of_get?
  le_maxColumn' := le_maxColumn_of_get?
  maxColumn_le := by
    refine maxColumn_ofCells_le _ _ (List.forall_mem_map.2 fun cell hc => ?_)
    exact hle _ (column_le_maxColumn_ofCells fileName name hc)
  maxRow_eq := by
    rw [maxRow_eq_foldl, maxRow_eq_foldl, List.map_map]
    rfl

namespace Rearranged

variable {move : Nat → Nat} {sheet other : Sheet} {row column : Nat}

theorem text_move (h : Rearranged move sheet other) (row column : Nat) :
    other.text row (move column) = sheet.text row column := by
  rw [text, text, h.get?_move]
  cases sheet.get? row column <;> rfl

theorem text_of_lt (h : Rearranged move sheet other) (hlt : other.maxColumn < move column) :
    sheet.text row column = .ok "" := by
  rw [← h.text_move, text]
  cases hget : other.get? row (move column) with
  | none => rfl
  | some cell => exact absurd (h.le_maxColumn' hget) (Nat.not_le.2 hlt)

theorem le_of_hasLabel (h : Rearranged move sheet other) (hlabel : HasLabel sheet row column) :
    move column ≤ other.maxColumn := by
  by_contra hlt
  exact not_hasLabel (h.text_of_lt (Nat.not_le.1 hlt)) hlabel

theorem hasLabel_move (h : Rearranged move sheet other) :
    HasLabel other row (move column) ↔ HasLabel sheet row column := by
  rw [HasLabel, HasLabel, h.text_move]

/-- A row is blank in one of the sheets exactly if it is in the other one. -/
theorem isBlankRow_eq (h : Rearranged move sheet other)
    (hpos : ∀ column, 1 ≤ move column ↔ 1 ≤ column) (row : Nat) :
    other.isBlankRow row 1 other.maxColumn = sheet.isBlankRow row 1 sheet.maxColumn := by
  have hmoved : ∀ column, other.isBlank row (move column) = sheet.isBlank row column := by
    intro column
    rw [isBlank, isBlank, h.get?_move, Option.map_map]
    rfl
  have hbeyond : ∀ column, sheet.maxColumn < column → sheet.isBlank row column = true := by
    intro column hlt
    cases hget : sheet.get? row column with
    | none => exact isBlank_of_get?_eq_none hget
    | some cell => exact absurd (h.le_maxColumn hget) (Nat.not_le.2 hlt)
  rw [Bool.eq_iff_iff, isBlankRow_eq_true, isBlankRow_eq_true]
  constructor
  · intro hblank column hone _
    rw [← hmoved]
    cases hget : other.get? row (move column) with
    | none => exact isBlank_of_get?_eq_none hget
    | some cell => exact hblank _ ((hpos column).2 hone) (h.le_maxColumn' hget)
  · intro hblank column' hone _
    by_cases hold : ∃ column, move column = column'
    · obtain ⟨column, rfl⟩ := hold
      rw [hmoved]
      rcases Nat.lt_or_ge sheet.maxColumn column with hlt | hle
      · exact hbeyond column hlt
      · exact hblank column ((hpos column).1 hone) hle
    · exact isBlank_of_get?_eq_none (h.get?_new (not_exists.1 hold))

end Rearranged

end Sheet

/-! ## The blocks of the new header -/

/-- Where a block stands in a sheet, and where in another one that ends at a column. -/
def Move.ofPlace (bound : Nat) (place : Nat × Layout) : Move where
  first := place.2.first
  last := place.2.last
  first' := place.1
  last' := min (place.1 + place.2.width) (bound + 1) - 1

/-- A block that stays where it is. -/
def Move.stay (label : Layout) : Move := ⟨label.first, label.last, label.first, label.last⟩

namespace Layout

variable {sheet other : Sheet} {headerRows start : Nat} {labels order : List Layout}
  {label : Layout} {place : Nat × Layout}

/-- A block ends at the last column or before the next label of the first row. -/
theorem InBlocks.ends (h : InBlocks sheet headerRows start labels) (hlabel : label ∈ labels) :
    label.last = sheet.maxColumn ∨
      label.last < sheet.maxColumn ∧ HasLabel sheet 1 (label.last + 1) := by
  rcases h.tiles.exists_next hlabel with hend | ⟨next, hnext, heq⟩
  · exact Or.inl (Nat.succ.inj hend)
  · have := h.tiles.bounds hnext
    exact Or.inr ⟨by omega, heq ▸ h.hasLabel hnext⟩

/-- The blocks of a header are framed. -/
theorem InBlocks.framed_stay (h : InBlocks sheet headerRows start labels)
    (hlabel : label ∈ labels) : (Move.stay label).Framed sheet sheet headerRows where
  le := le_rfl
  text_eq _ _ _ _ hcolumn _ := by
    rw [Nat.add_left_cancel hcolumn]
  blank _ _ _ hle hlt := by
    simp only [Move.stay] at hle hlt
    omega
  hasLabel := h.hasLabel hlabel
  blank_after := h.blank_after hlabel
  first_le := (h.tiles.bounds hlabel).2.1
  first_le' := (h.tiles.bounds hlabel).2.1
  ends := h.ends hlabel
  ends' := h.ends hlabel

section Rearranged

variable (h : InBlocks sheet headerRows start labels) (horder : order.Perm labels)
include h horder

/-- The columns of a block go to its place. -/
theorem InBlocks.movedColumn_eq (hplace : place ∈ placed start order) {column column' : Nat}
    (hfirst : place.2.first ≤ column) (hlast : column ≤ place.2.last)
    (hcolumn : place.2.first + column' = place.1 + column) :
    movedColumn (placed start order) column = column' := by
  rw [movedColumn_of_mem h.tiles horder hplace ⟨hfirst, hlast⟩]
  omega

variable (hsheet : sheet.Rearranged (movedColumn (placed start order)) other)
include hsheet

/-- Each block starts within the new sheet, with its label. -/
theorem InBlocks.placed_le_maxColumn (hplace : place ∈ placed start order) :
    place.1 ≤ other.maxColumn ∧ HasLabel other 1 place.1 := by
  have hlabel := horder.mem_iff.1 (mem_of_placed hplace)
  have hfirst := h.movedColumn_eq horder hplace le_rfl (h.tiles.bounds hlabel).2.1
    (Nat.add_comm ..)
  rw [← hfirst]
  exact ⟨hsheet.le_of_hasLabel (h.hasLabel hlabel), hsheet.hasLabel_move.2 (h.hasLabel hlabel)⟩

/-- **In their places, the blocks are framed in the new sheet.** -/
theorem InBlocks.framed_ofPlace (hplace : place ∈ placed start order) :
    (Move.ofPlace other.maxColumn place).Framed sheet other headerRows := by
  have hlabel := horder.mem_iff.1 (mem_of_placed hplace)
  have hbounds := h.tiles.bounds hlabel
  have hwidth : place.2.width = place.2.last + 1 - place.2.first := rfl
  obtain ⟨hle, -⟩ := h.placed_le_maxColumn horder hsheet hplace
  have hstop := h.tiles.sum_width
  rw [← (horder.map width).sum_eq] at hstop
  refine ⟨⟨?_, fun h₁ h₂ h₃ h₄ h₅ h₆ => ?_, fun {row column} h₁ h₂ h₃ h₄ h₅ => ?_⟩,
    h.hasLabel hlabel, h.blank_after hlabel, hbounds.2.1, ?_, h.ends hlabel, ?_⟩
  · simp only [Move.ofPlace]
    omega
  · rw [← h.movedColumn_eq horder hplace h₃ h₄ h₅, hsheet.text_move]
  · simp only [Move.ofPlace] at h₃ h₄ h₅
    refine hsheet.text_of_lt ?_
    have hcolumn : place.2.first + (place.1 + (column - place.2.first)) = place.1 + column := by
      omega
    rw [h.movedColumn_eq horder hplace h₃ h₄ hcolumn]
    omega
  · simp only [Move.ofPlace]
    omega
  · have hmax := hsheet.maxColumn_le
    simp only [Move.ofPlace]
    rcases exists_next_placed hplace with hend | ⟨next, hnext, heq⟩
    · left
      omega
    · right
      obtain ⟨hle', hlabel'⟩ := h.placed_le_maxColumn horder hsheet hnext
      rw [show min (place.1 + place.2.width) (other.maxColumn + 1) - 1 + 1 = next.1 by omega]
      exact ⟨by omega, hlabel'⟩

end Rearranged

/-! ## The whole header -/

/-- The positions of a header before a column and then block by block, when the blocks are put
beside each other from that column on. -/
theorem headerPositions_eq_append {bound : Nat} (headerRows : Nat) (hpos : 1 ≤ start)
    (hle : start ≤ bound + 1) (hbound : bound + 1 ≤ start + (labels.map width).sum) :
    headerPositions bound headerRows = blockPositions headerRows 1 (start - 1) ++
      (placed start labels).flatMap fun place => blockPositions headerRows place.1
        (min (place.1 + place.2.width) (bound + 1) - place.1) := by
  have hsplit : bound = (start - 1) + (bound + 1 - start) := by omega
  have hcolumns : List.range' 1 bound =
      List.range' 1 (start - 1) ++ List.range' start (bound + 1 - start) := by
    conv_lhs => rw [hsplit, ← List.range'_append_1, Nat.add_sub_cancel' hpos]
  rw [headerPositions, hcolumns, range_eq_flatMap hbound, List.flatMap_append, List.flatMap_assoc]
  rfl

/-- Some scan of a block has hung a label under the root. -/
def Scanned (sheet : Sheet) (headerRows : Nat) (block label : Layout) : Prop :=
  ∃ scan next, BeforeBlock sheet headerRows scan ∧
    (blockPositions headerRows block.first block.width).foldlM (step sheet headerRows) scan =
      .ok next ∧
    next.upTo 1 = (scan.upTo 1).attach label

/-- A scan of blocks has hung a label under the root for each of them. -/
theorem exists_scanned (hpos : 0 < headerRows)
    (hframed : ∀ label ∈ labels, (Move.stay label).Framed sheet sheet headerRows)
    {scan final : HeaderScan} (hbefore : BeforeBlock sheet headerRows scan)
    (hfold : (labels.flatMap fun label => blockPositions headerRows label.first label.width).foldlM
      (step sheet headerRows) scan = .ok final) :
    ∃ found, List.Forall₂ (Scanned sheet headerRows) labels found ∧
      final.upTo 1 = (scan.upTo 1).attachAll found := by
  induction labels generalizing scan with
  | nil =>
    cases hfold
    exact ⟨[], .nil, (attachAll_nil _).symm⟩
  | cons label rest ih =>
    obtain ⟨hlabel, hrest⟩ := List.forall_mem_cons.1 hframed
    rw [List.flatMap_cons, List.foldlM_append] at hfold
    obtain ⟨next, hnext, hfold⟩ := bind_eq_ok.1 hfold
    obtain ⟨next', inner, inner', -, hpasses⟩ := hlabel.exists_passes hpos hbefore hbefore hnext
    obtain ⟨found, hfound, hfinal⟩ :=
      ih hrest (hbefore.of_attach hpasses.size_eq hpasses.upTo_eq) hfold
    refine ⟨inner :: found, .cons ⟨scan, next, hbefore, hnext, hpasses.upTo_eq⟩ hfound, ?_⟩
    rw [hfinal, hpasses.upTo_eq, attachAll_cons]

/-- **Blocks that have been scanned in one sheet are scanned in their places in the other one**,
into copies of the same labels. -/
theorem exists_rescanned {places : List (Nat × Layout)} (hpos : 0 < headerRows)
    (hplaces : ∀ place ∈ places,
      (Move.ofPlace other.maxColumn place).Framed sheet other headerRows ∧
        Scanned sheet headerRows place.2 place.2)
    {scan : HeaderScan} (hbefore : BeforeBlock other headerRows scan) :
    ∃ final found,
      (places.flatMap fun place => blockPositions headerRows place.1
        (min (place.1 + place.2.width) (other.maxColumn + 1) - place.1)).foldlM
        (step other headerRows) scan = .ok final ∧
      List.Forall₂ (fun place label => (Move.ofPlace other.maxColumn place).Copies place.2 label)
        places found ∧
      final.upTo 1 = (scan.upTo 1).attachAll found := by
  induction places generalizing scan with
  | nil => exact ⟨scan, [], rfl, .nil, (attachAll_nil _).symm⟩
  | cons place rest ih =>
    obtain ⟨⟨hframed, before, after, hbefore', hafter, hattach⟩, hrest⟩ :=
      List.forall_mem_cons.1 hplaces
    obtain ⟨next, label, label', hnext, hpasses⟩ :=
      hframed.exists_passes hpos hbefore' hbefore hafter
    -- the label that is scanned in the first sheet is the one of the block
    have hsame : label = place.2 := by
      have heq := congrArg (fun scan : HeaderScan => scan.top.members)
        (hpasses.upTo_eq.symm.trans hattach)
      exact List.singleton_inj.1 (List.append_cancel_left heq)
    rw [hsame] at hpasses
    obtain ⟨final, found, hfinal, hfound, hup⟩ :=
      ih hrest (hbefore.of_attach hpasses.size_eq' hpasses.upTo_eq')
    refine ⟨final, label' :: found, ?_, .cons hpasses.copies hfound, ?_⟩
    · have hcount : (Move.ofPlace other.maxColumn place).last' + 1 - place.1 =
          min (place.1 + place.2.width) (other.maxColumn + 1) - place.1 := by
        have hle := hframed.first_le
        simp only [Move.ofPlace, width] at hle ⊢
        omega
      rw [List.flatMap_cons, List.foldlM_append, ← hcount]
      exact bind_eq_ok.2 ⟨next, hnext, hfinal⟩
    · rw [hup, hpasses.upTo_eq', attachAll_cons]

/-- The scan of a header with nothing but its root. -/
def rootScan (sheet : Sheet) : HeaderScan := ⟨⟨TypeTree.rootName, 1, sheet.maxColumn, []⟩, []⟩

theorem ofSheet_eq (sheet : Sheet) (headerRows : Nat) : Layout.ofSheet sheet headerRows =
    ((headerPositions sheet.maxColumn headerRows).foldlM (step sheet headerRows)
      (rootScan sheet)).map fun scan => (scan.upTo 1).top := by
  rw [Layout.ofSheet, rootScan]
  cases (headerPositions sheet.maxColumn headerRows).foldlM (step sheet headerRows)
    ⟨⟨TypeTree.rootName, 1, sheet.maxColumn, []⟩, []⟩ <;> rfl

theorem beforeBlock_rootScan (sheet : Sheet) (headerRows : Nat) :
    BeforeBlock sheet headerRows (rootScan sheet) := ⟨fun _ => rfl, rfl⟩

/-- Each block of a header has been scanned into its label. -/
theorem InBlocks.scanned {layout : Layout} (h : InBlocks sheet headerRows start layout.members)
    (hpos : 0 < headerRows) (hlayout : Layout.ofSheet sheet headerRows = .ok layout)
    (hlabel : label ∈ layout.members) : Scanned sheet headerRows label label := by
  have hsum := h.tiles.sum_width
  have hblank : ∀ position ∈ blockPositions headerRows 1 (start - 1),
      sheet.text position.1 position.2 = .ok "" := by
    rintro ⟨row, column⟩ hposition
    obtain ⟨hrow, hcolumn⟩ := mem_blockPositions.1 hposition
    exact h.blank_before hrow.1 hrow.2 hcolumn.1 (by omega)
  have hcolumns : ((placed start layout.members).flatMap fun place =>
      blockPositions headerRows place.1
        (min (place.1 + place.2.width) (sheet.maxColumn + 1) - place.1)) =
      layout.members.flatMap fun label => blockPositions headerRows label.first label.width := by
    rw [h.tiles.placed_eq, List.flatMap_map]
    refine List.flatMap_congr fun label hlabel => ?_
    have := h.tiles.bounds hlabel
    simp only [width]
    congr 1
    omega
  rw [ofSheet_eq, headerPositions_eq_append headerRows h.pos h.tiles.le hsum.ge, List.foldlM_append,
    foldlM_of_blank hblank, hcolumns] at hlayout
  obtain ⟨final, hfinal, hroot⟩ := map_eq_ok.1 hlayout
  obtain ⟨found, hfound, hup⟩ := exists_scanned hpos (fun label => h.framed_stay)
    (beforeBlock_rootScan sheet headerRows) hfinal
  have hmembers : layout.members = found := by
    rw [← hroot, hup]
    rfl
  rw [← hmembers] at hfound
  exact List.forall₂_same.1 hfound label hlabel

/-- **The header of the new sheet is scanned** into copies of the labels in their new order. -/
theorem exists_ofSheet_rearranged {layout : Layout} (hpos : 0 < headerRows)
    (hlayout : Layout.ofSheet sheet headerRows = .ok layout)
    (h : InBlocks sheet headerRows start layout.members) (hne : layout.members ≠ [])
    (horder : order.Perm layout.members)
    (hsheet : sheet.Rearranged (movedColumn (placed start order)) other) :
    ∃ members, Layout.ofSheet other headerRows =
        .ok ⟨TypeTree.rootName, 1, other.maxColumn, members⟩ ∧
      List.Forall₂ (fun place label => (Move.ofPlace other.maxColumn place).Copies place.2 label)
        (placed start order) members := by
  have hplaces : ∀ place ∈ placed start order,
      (Move.ofPlace other.maxColumn place).Framed sheet other headerRows ∧
        Scanned sheet headerRows place.2 place.2 := fun place hplace =>
    ⟨h.framed_ofPlace horder hsheet hplace,
      h.scanned hpos hlayout (horder.mem_iff.1 (mem_of_placed hplace))⟩
  obtain ⟨final, found, hfinal, hfound, hup⟩ :=
    exists_rescanned hpos hplaces (beforeBlock_rootScan other headerRows)
  have hblank : ∀ position ∈ blockPositions headerRows 1 (start - 1),
      other.text position.1 position.2 = .ok "" := by
    rintro ⟨row, column⟩ hposition
    obtain ⟨hrow, hcolumn⟩ := mem_blockPositions.1 hposition
    have hlt : column < start := by omega
    have htext := hsheet.text_move row column
    rw [movedColumn_of_outside h.tiles horder (Or.inl hlt)] at htext
    exact htext.trans (h.blank_before hrow.1 hrow.2 hcolumn.1 hlt)
  have hstart : start ≤ other.maxColumn := by
    obtain ⟨label, rest, heq⟩ := List.exists_cons_of_ne_nil fun hnil : order = [] =>
      hne (List.nil_perm.1 (hnil ▸ horder))
    have hfirst : (start, label) ∈ placed start order := heq ▸ List.mem_cons_self
    exact (h.placed_le_maxColumn horder hsheet hfirst).1
  have hmax := hsheet.maxColumn_le
  have hsum := h.tiles.sum_width
  rw [← (horder.map width).sum_eq] at hsum
  refine ⟨found, ?_, hfound⟩
  rw [ofSheet_eq, headerPositions_eq_append headerRows h.pos (by omega)
    (by omega : other.maxColumn + 1 ≤ start + (order.map width).sum), List.foldlM_append,
    foldlM_of_blank hblank]
  refine map_eq_ok.2 ⟨final, hfinal, ?_⟩
  rw [hup]
  rfl

end Layout

end TableExport
