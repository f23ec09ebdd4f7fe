import TableExport.Proofs.Table.Blocks

/-!
# Scanning a block of columns

A label of the first header row closes all labels before it, so what hangs under it depends on its
own block of columns only: the same block is scanned into the same labels in any columns of any
sheet, whatever has been scanned before (`Move.Framed.exists_passes`). Only the end of a block may
differ, where a sheet ends before the last columns of the block, which are blank (`Move.Copies`).

The two scans run side by side. Their open labels are copies of each other, but for the root
(`Twin`); each position of the block keeps this (`Twin.step`).
-/

namespace TableExport

open Layout HeaderScan

/-- Where a block of columns stands in a sheet, and where in another one, which may end before the
last columns of the block. -/
structure Move where
  first : Nat
  last : Nat
  first' : Nat
  last' : Nat

namespace Move

/-- A label of a block and the one in the moved block: they have the same name, columns that belong
together and copies of the same labels below. -/
inductive Copies (move : Move) : Layout → Layout → Prop
  | mk {label label' : Layout} : label'.name = label.name → move.first ≤ label.first →
    label.first ≤ move.last → label.last ≤ move.last →
    move.first + label'.first = move.first' + label.first →
    move.first + label'.last = min (move.first' + label.last) (move.first + move.last') →
    List.Forall₂ (Copies move) label.members label'.members → Copies move label label'

/-- The texts of the header rows of a block are the same in both sheets, and columns that are cut
off are blank. -/
structure Shows (move : Move) (sheet other : Sheet) (headerRows : Nat) : Prop where
  le : move.first + move.last' ≤ move.first' + move.last
  text_eq {row column column' : Nat} : 1 ≤ row → row ≤ headerRows → move.first ≤ column →
    column ≤ move.last → move.first + column' = move.first' + column → column' ≤ move.last' →
    other.text row column' = sheet.text row column
  blank {row column : Nat} : 1 ≤ row → row ≤ headerRows → move.first ≤ column →
    column ≤ move.last → move.first + move.last' < move.first' + column →
    sheet.text row column = .ok ""

variable {move : Move} {sheet other : Sheet} {headerRows row column column' bound bound' last : Nat}
  {label label' inner inner' : Layout}

namespace Copies

theorem name_eq (h : move.Copies label label') : label'.name = label.name := by
  obtain ⟨hname, -⟩ := h
  exact hname

theorem attach (h : move.Copies label label') (hinner : move.Copies inner inner') :
    move.Copies { label with members := label.members ++ [inner] }
      { label' with members := label'.members ++ [inner'] } := by
  obtain ⟨hname, hfirst, hle, hlast, hfirst', hlast', hmembers⟩ := h
  exact .mk hname hfirst hle hlast hfirst' hlast' (List.rel_append hmembers (.cons hinner .nil))

end Copies

/-- The ends of a label are found in columns that belong together. -/
theorem Shows.endBefore_eq (h : move.Shows sheet other headerRows) (hrow : 1 ≤ row)
    (hle : row ≤ headerRows) (hbound : bound ≤ move.last)
    (hbound' : move.first + bound' = min (move.first' + bound) (move.first + move.last'))
    {count : Nat} (hcount : count = bound + 1 - column) (hfirst : move.first ≤ column)
    (hcolumn : move.first + column' = move.first' + column) (hpos : 0 < column)
    (hpos' : 0 < column')
    (hend : endBefore sheet row bound column count = .ok last) :
    last ≤ bound ∧ ∃ last', endBefore other row bound' column' (bound' + 1 - column') = .ok last' ∧
      move.first + last' = min (move.first' + last) (move.first + move.last') := by
  induction count generalizing column column' with
  | zero =>
    cases hend
    rw [show bound' + 1 - column' = 0 by omega]
    exact ⟨le_rfl, _, rfl, hbound'⟩
  | succ count ih =>
    rw [endBefore] at hend
    obtain ⟨name, hname, hend⟩ := bind_eq_ok.1 hend
    have hnext := @ih (column + 1) (column' + 1) (by omega) (by omega) (by omega) (by omega)
      (by omega)
    by_cases hcut : move.last' < column'
    · rw [h.blank hrow hle hfirst (by omega) (by omega)] at hname
      cases hname
      obtain ⟨hlast, last', hend', hlast'⟩ := hnext hend
      rw [show bound' + 1 - (column' + 1) = 0 by omega] at hend'
      rw [show bound' + 1 - column' = 0 by omega]
      cases hend'
      exact ⟨hlast, _, rfl, hlast'⟩
    · have htext := h.text_eq hrow hle hfirst (by omega) hcolumn (Nat.le_of_not_lt hcut)
      rw [show bound' + 1 - column' = bound' + 1 - (column' + 1) + 1 by omega, endBefore, htext,
        hname]
      simp only [bind, Except.bind]
      split at hend
      · rename_i hempty
        rw [if_pos hempty]
        exact hnext hend
      · rename_i hne
        cases hend
        rw [if_neg hne]
        exact ⟨by omega, _, rfl, by omega⟩

end Move

/-! ## Two scans of a block -/

/-- Two scans inside a block: the labels that they have opened in the block are copies. -/
inductive Twin (move : Move) (root root' : Layout) : HeaderScan → HeaderScan → Prop
  | opened {label label' : Layout} : move.Copies label label' →
    Twin move root root' ⟨label, [root]⟩ ⟨label', [root']⟩
  | descend {scan scan' : HeaderScan} {label label' : Layout} : Twin move root root' scan scan' →
    move.Copies label label' → Twin move root root' (scan.descend label) (scan'.descend label')

namespace Twin

variable {move : Move} {root root' label label' : Layout} {scan scan' next : HeaderScan}
  {sheet other : Sheet} {headerRows row column column' levels depth : Nat}

theorem size_eq (h : Twin move root root' scan scan') : scan'.size = scan.size ∧ 2 ≤ scan.size := by
  induction h with
  | opened => exact ⟨rfl, le_rfl⟩
  | descend _ _ ih =>
    rw [size_descend, size_descend]
    omega

theorem top (h : Twin move root root' scan scan') : move.Copies scan.top scan'.top := by
  cases h with
  | opened hlabel => exact hlabel
  | descend _ hlabel => exact hlabel

theorem attach (h : Twin move root root' scan scan') (hlabel : move.Copies label label') :
    Twin move root root' (scan.attach label) (scan'.attach label') := by
  cases h with
  | opened htop => exact .opened (htop.attach hlabel)
  | descend h htop => exact .descend h (htop.attach hlabel)

/-- Closing labels leaves copies, as long as a label of the block is open. -/
theorem close (h : Twin move root root' scan scan') (hlevels : levels + 2 ≤ scan.size) :
    Twin move root root' (scan.close levels) (scan'.close levels) := by
  induction levels generalizing scan scan' with
  | zero =>
    rw [close_zero, close_zero]
    exact h
  | succ levels ih =>
    cases h with
    | opened =>
      simp only [size, List.length_singleton] at hlevels
      omega
    | descend h htop =>
      rw [size_descend] at hlevels
      rw [HeaderScan.descend, HeaderScan.descend, HeaderScan.close, HeaderScan.close]
      exact ih (h.attach htop) (by simp only [HeaderScan.attach, size] at hlevels ⊢; omega)

theorem upTo (h : Twin move root root' scan scan') (hdepth : 2 ≤ depth) (hle : depth ≤ scan.size) :
    Twin move root root' (scan.upTo depth) (scan'.upTo depth) := by
  rw [HeaderScan.upTo, HeaderScan.upTo, h.size_eq.1]
  exact h.close (by omega)

/-- When the block is left, one label with all that hangs under it hangs under the root. -/
theorem exists_upTo_one (h : Twin move root root' scan scan') : ∃ label label',
    scan.upTo 1 = HeaderScan.attach ⟨root, []⟩ label ∧
      scan'.upTo 1 = HeaderScan.attach ⟨root', []⟩ label' ∧ move.Copies label label' := by
  obtain ⟨hsize, hle⟩ := h.size_eq
  have hup : scan.upTo 1 = (scan.upTo 2).close 1 := upTo_eq_close hle
  have hup' : scan'.upTo 1 = (scan'.upTo 2).close 1 := upTo_eq_close (hsize ▸ hle)
  have htwo := h.upTo le_rfl hle
  have hdepth := size_upTo Nat.two_pos hle
  rw [hup, hup']
  generalize scan.upTo 2 = last at *
  generalize scan'.upTo 2 = last' at *
  cases htwo with
  | opened hlabel => exact ⟨_, _, by simp [HeaderScan.close], by simp [HeaderScan.close], hlabel⟩
  | descend h =>
    have := h.size_eq.2
    rw [size_descend] at hdepth
    omega

/-- **A position of the block keeps the open labels copies of each other**, unless it is a label of
the first row. -/
theorem step (h : Twin move root root' scan scan') (hshows : move.Shows sheet other headerRows)
    (hrow : 1 ≤ row) (hle : row ≤ headerRows) (hfirst : move.first ≤ column)
    (hlast : column ≤ move.last) (hcolumn : move.first + column' = move.first' + column)
    (hin : column' ≤ move.last') (hinner : row ≠ 1 ∨ sheet.text row column = .ok "")
    (hstep : HeaderScan.step sheet headerRows scan (row, column) = .ok next) :
    ∃ next', HeaderScan.step other headerRows scan' (row, column') = .ok next' ∧
      Twin move root root' next next' := by
  have htext := hshows.text_eq hrow hle hfirst hlast hcolumn hin
  have hlabel : ∀ {parent parent' : Layout} {name : String} {last : Nat},
      move.Copies parent parent' →
      endBefore sheet row parent.last (column + 1) (parent.last - column) = .ok last →
      ∃ last', endBefore other row parent'.last (column' + 1) (parent'.last - column') = .ok last' ∧
        move.Copies ⟨name, column, last, []⟩ ⟨name, column', last', []⟩ := by
    rintro parent parent' name last ⟨-, -, -, hbound, -, hbound', -⟩ hend
    obtain ⟨hstop, last', hend', hlast'⟩ := hshows.endBefore_eq hrow hle hbound hbound'
      (Nat.add_sub_add_right ..).symm (by omega)
      (show move.first + (column' + 1) = move.first' + (column + 1) by omega) (by omega) (by omega)
      hend
    rw [Nat.add_sub_add_right] at hend'
    exact ⟨last', hend', .mk rfl hfirst hlast (hstop.trans hbound) hcolumn hlast' .nil⟩
  rcases step_eq_ok hrow hstep with
    ⟨hblank, rfl⟩ | ⟨name, last, hname, hne, ⟨rfl, hend, rfl⟩ | ⟨hfinal, hsize, hend, rfl⟩⟩
  · exact ⟨scan', step_of_blank (htext.trans hblank), h⟩
  · obtain ⟨last', hend', hcopies⟩ := hlabel h.top hend
    exact ⟨_, step_of_final hrow (htext.trans hname) hne hend', h.attach hcopies⟩
  · have hdeep : 2 ≤ row := by
      rcases hinner with hinner | hblank
      · omega
      · exact absurd (Except.ok.inj (hname.symm.trans hblank)) hne
    have hup := h.upTo hdeep hsize
    obtain ⟨last', hend', hcopies⟩ := hlabel hup.top hend
    exact ⟨_, step_of_lt hrow (by omega) (h.size_eq.1 ▸ hsize) (htext.trans hname) hne hend',
      .descend hup hcopies⟩

end Twin

/-! ## Whole blocks -/

namespace Layout

/-- The positions of the header in some columns from a first one on, column by column. -/
def blockPositions (headerRows first count : Nat) : List (Nat × Nat) :=
  (List.range' first count).flatMap fun column =>
    (List.range' 1 headerRows).map fun row => (row, column)

variable {headerRows first count row column : Nat}

theorem mem_blockPositions : (row, column) ∈ blockPositions headerRows first count ↔
    (1 ≤ row ∧ row ≤ headerRows) ∧ first ≤ column ∧ column < first + count := by
  simp only [blockPositions, List.mem_flatMap, List.mem_map, List.mem_range'_1, Prod.mk.injEq]
  constructor
  · rintro ⟨column, hcolumn, row, hrow, rfl, rfl⟩
    omega
  · rintro ⟨hrow, hcolumn⟩
    exact ⟨column, hcolumn, row, by omega, rfl, rfl⟩

theorem blockPositions_add (headerRows first count count' : Nat) :
    blockPositions headerRows first (count + count') =
      blockPositions headerRows first count ++
        blockPositions headerRows (first + count) count' := by
  rw [blockPositions, ← List.range'_append_1, List.flatMap_append]
  rfl

/-- The label of the first row comes first in a block. -/
theorem exists_blockPositions_eq (hpos : 0 < headerRows) (first count : Nat) :
    ∃ inner, blockPositions headerRows first (count + 1) = (1, first) :: inner ∧
      ∀ position ∈ inner, (1 ≤ position.1 ∧ position.1 ≤ headerRows) ∧
        (first ≤ position.2 ∧ position.2 < first + (count + 1)) ∧
        (position.1 ≠ 1 ∨ first < position.2) := by
  obtain ⟨rows, rfl⟩ := Nat.exists_eq_add_one.2 hpos
  refine ⟨(List.range' 2 rows).map (fun row => (row, first)) ++
    blockPositions (rows + 1) (first + 1) count, ?_, ?_⟩
  · rw [Nat.add_comm count, blockPositions_add]
    simp [blockPositions, List.range'_succ]
  · rintro ⟨row, column⟩ hposition
    rcases List.mem_append.1 hposition with hposition | hposition
    · obtain ⟨row, hrow, heq⟩ := List.mem_map.1 hposition
      cases heq
      have := List.mem_range'_1.1 hrow
      simp only
      omega
    · have := mem_blockPositions.1 hposition
      simp only
      omega

end Layout

namespace Move

variable {move : Move} {sheet other : Sheet} {headerRows : Nat} {scan scan' next : HeaderScan}
  {root root' : Layout} {positions : List (Nat × Nat)}

/-- Where a position of a block goes. -/
def position (move : Move) (position : Nat × Nat) : Nat × Nat :=
  (position.1, move.first' + (position.2 - move.first))

theorem map_blockPositions (move : Move) (headerRows count : Nat) :
    (blockPositions headerRows move.first count).map move.position =
      blockPositions headerRows move.first' count := by
  have hrange : ∀ first, List.range' first count = (List.range count).map (first + ·) :=
    fun first => List.range'_eq_map_range
  rw [blockPositions, blockPositions, List.map_flatMap, hrange move.first, hrange move.first',
    List.flatMap_map, List.flatMap_map]
  refine List.flatMap_congr fun i _ => ?_
  rw [List.map_map]
  refine List.map_congr_left fun row _ => ?_
  simp [position]

/-- **The positions of a block after its first label are scanned side by side.** -/
theorem exists_foldlM (hshows : move.Shows sheet other headerRows)
    (hpositions : ∀ position ∈ positions, (1 ≤ position.1 ∧ position.1 ≤ headerRows) ∧
      (move.first ≤ position.2 ∧ position.2 ≤ move.last) ∧
      (move.position position).2 ≤ move.last' ∧
      (position.1 ≠ 1 ∨ sheet.text position.1 position.2 = .ok ""))
    (h : Twin move root root' scan scan')
    (hfold : positions.foldlM (step sheet headerRows) scan = .ok next) :
    ∃ next', (positions.map move.position).foldlM (step other headerRows) scan' = .ok next' ∧
      Twin move root root' next next' := by
  induction positions generalizing scan scan' with
  | nil =>
    cases hfold
    exact ⟨scan', rfl, h⟩
  | cons position positions ih =>
    obtain ⟨row, column⟩ := position
    obtain ⟨⟨hrow, hcolumn, hin, hinner⟩, hrest⟩ := List.forall_mem_cons.1 hpositions
    rw [List.foldlM_cons] at hfold
    obtain ⟨middle, hmiddle, hfold⟩ := bind_eq_ok.1 hfold
    simp only [Move.position] at hin hcolumn
    obtain ⟨middle', hmiddle', h⟩ := h.step hshows hrow.1 hrow.2 hcolumn.1 hcolumn.2
      (show move.first + (move.first' + (column - move.first)) = move.first' + column by omega)
      hin hinner hmiddle
    obtain ⟨next', hnext', h⟩ := ih hrest h hfold
    refine ⟨next', ?_, h⟩
    rw [List.map_cons, List.foldlM_cons, Move.position, hmiddle']
    exact hnext'

/-- A block starts with its only label of the first row and ends before the next one, in both
sheets. -/
structure Framed (move : Move) (sheet other : Sheet) (headerRows : Nat) : Prop extends
    move.Shows sheet other headerRows where
  hasLabel : HasLabel sheet 1 move.first
  blank_after {column : Nat} : move.first < column → column ≤ move.last →
    sheet.text 1 column = .ok ""
  first_le : move.first ≤ move.last
  first_le' : move.first' ≤ move.last'
  ends : move.last = sheet.maxColumn ∨
    move.last < sheet.maxColumn ∧ HasLabel sheet 1 (move.last + 1)
  ends' : move.last' = other.maxColumn ∨
    move.last' < other.maxColumn ∧ HasLabel other 1 (move.last' + 1)

/-- The only label of the first row in some columns reaches over them. -/
theorem endBefore_first {first last : Nat} (hle : first ≤ last)
    (hblank : ∀ column, first < column → column ≤ last → sheet.text 1 column = .ok "")
    (hends : last = sheet.maxColumn ∨ last < sheet.maxColumn ∧ HasLabel sheet 1 (last + 1)) :
    endBefore sheet 1 sheet.maxColumn (first + 1) (sheet.maxColumn - first) = .ok last := by
  rcases hends with rfl | ⟨hlt, name, htext, hname⟩
  · exact endBefore_of_blank fun column h₁ h₂ => hblank column h₁ (by omega)
  · exact endBefore_of_text (by omega) (fun column h₁ h₂ => hblank column h₁ (by omega)) (by omega)
      htext hname

end Move

/-- A scan that stands before a block: it goes on under a root that reaches up to the last
column. -/
structure BeforeBlock (sheet : Sheet) (headerRows : Nat) (scan : HeaderScan) : Prop where
  /-- In the only header row no label is opened. -/
  size_eq : headerRows = 1 → scan.size = 1
  last_eq : (scan.upTo 1).top.last = sheet.maxColumn

namespace BeforeBlock

variable {move : Move} {sheet other : Sheet} {headerRows column last : Nat}
  {scan scan' next : HeaderScan} {name : String}

theorem upTo_one_eq (scan : HeaderScan) : scan.upTo 1 = ⟨(scan.upTo 1).top, []⟩ := by
  have hsize := size_upTo Nat.one_pos scan.size_pos
  have hbelow : (scan.upTo 1).below = [] := by
    simp only [size] at hsize
    exact List.eq_nil_of_length_eq_zero (by omega)
  rw [← hbelow]

theorem of_attach {label : Layout} (h : BeforeBlock sheet headerRows scan)
    (hsize : headerRows = 1 → next.size = 1)
    (hnext : next.upTo 1 = (scan.upTo 1).attach label) : BeforeBlock sheet headerRows next :=
  ⟨hsize, by rw [hnext]; exact h.last_eq⟩

end BeforeBlock

/-- Blank positions change nothing. -/
theorem HeaderScan.foldlM_of_blank {sheet : Sheet} {headerRows : Nat}
    {positions : List (Nat × Nat)}
    (h : ∀ position ∈ positions, sheet.text position.1 position.2 = .ok "") (scan : HeaderScan) :
    positions.foldlM (step sheet headerRows) scan = .ok scan := by
  rw [Authored.foldlM_filter (fun _ => false) scan fun position hposition _ => h position hposition,
    List.filter_false]
  rfl

namespace Move

variable {move : Move} {sheet other : Sheet} {headerRows : Nat} {scan scan' next : HeaderScan}

/-- Two scans pass a block: the same label hangs under both roots afterwards, up to its columns. -/
structure Passes (move : Move) (headerRows : Nat) (scan scan' next next' : HeaderScan)
    (label label' : Layout) : Prop where
  copies : move.Copies label label'
  size_eq : headerRows = 1 → next.size = 1
  size_eq' : headerRows = 1 → next'.size = 1
  upTo_eq : next.upTo 1 = (scan.upTo 1).attach label
  upTo_eq' : next'.upTo 1 = (scan'.upTo 1).attach label'

namespace Framed

/-- The positions of a block that is not cut off, after its first label. -/
theorem exists_inner (h : move.Framed sheet other headerRows) (hpos : 0 < headerRows) :
    ∃ inner, blockPositions headerRows move.first (move.last' - move.first' + 1) =
        (1, move.first) :: inner ∧
      blockPositions headerRows move.first' (move.last' - move.first' + 1) =
        (1, move.first') :: inner.map move.position ∧
      ∀ position ∈ inner, (1 ≤ position.1 ∧ position.1 ≤ headerRows) ∧
        (move.first ≤ position.2 ∧ position.2 ≤ move.last) ∧
        (move.position position).2 ≤ move.last' ∧
        (position.1 ≠ 1 ∨ sheet.text position.1 position.2 = .ok "") := by
  have hle := h.le
  have hfirst' := h.first_le'
  obtain ⟨inner, hinner, hmem⟩ :=
    exists_blockPositions_eq hpos move.first (move.last' - move.first')
  refine ⟨inner, hinner, ?_, ?_⟩
  · rw [← map_blockPositions, hinner, List.map_cons]
    simp [position]
  · rintro ⟨row, column⟩ hposition
    obtain ⟨hrow, hcolumn, hlabel⟩ := hmem _ hposition
    simp only [position] at hrow hcolumn hlabel ⊢
    refine ⟨hrow, by omega, by omega, or_iff_not_imp_left.2 fun hone => ?_⟩
    rw [not_ne_iff] at hone
    subst hone
    exact h.blank_after (by omega) (by omega)

/-- The label that a block starts with, and where it ends. -/
theorem exists_first (h : move.Framed sheet other headerRows) (hpos : 0 < headerRows) :
    ∃ name, name ≠ "" ∧
      (sheet.text 1 move.first = .ok name ∧
        endBefore sheet 1 sheet.maxColumn (move.first + 1) (sheet.maxColumn - move.first) =
          .ok move.last) ∧
      (other.text 1 move.first' = .ok name ∧
        endBefore other 1 other.maxColumn (move.first' + 1) (other.maxColumn - move.first') =
          .ok move.last') ∧
      move.Copies ⟨name, move.first, move.last, []⟩ ⟨name, move.first', move.last', []⟩ := by
  have hle := h.le
  obtain ⟨name, htext, hname⟩ := h.hasLabel
  refine ⟨name, hname, ⟨htext, endBefore_first h.first_le (fun _ => h.blank_after) h.ends⟩,
    ⟨?_, endBefore_first h.first_le' (fun column h₁ h₂ => ?_) h.ends'⟩,
    .mk rfl le_rfl h.first_le le_rfl (Nat.add_comm ..) (by simp only; omega) .nil⟩
  · exact (h.text_eq le_rfl hpos le_rfl h.first_le (Nat.add_comm ..) h.first_le').trans htext
  · obtain ⟨distance, rfl⟩ := Nat.exists_eq_add_of_le h₁.le
    rw [h.text_eq le_rfl hpos (show move.first ≤ move.first + distance by omega) (by omega)
      (by omega) h₂]
    exact h.blank_after (by omega) (by omega)

/-- A block of the only header row is its label. -/
theorem exists_passes_of_one (h : move.Framed sheet other 1)
    (hbefore : BeforeBlock sheet 1 scan) (hbefore' : BeforeBlock other 1 scan')
    (hfold : (blockPositions 1 move.first (move.last' - move.first' + 1)).foldlM
      (step sheet 1) scan = .ok next) :
    ∃ next' label label', (blockPositions 1 move.first' (move.last' - move.first' + 1)).foldlM
        (step other 1) scan' = .ok next' ∧ Passes move 1 scan scan' next next' label label' := by
  have hup : ∀ {scan : HeaderScan}, scan.size = 1 → scan.upTo 1 = scan := by
    intro scan hsize
    conv_rhs => rw [← scan.upTo_size, hsize]
  have hsize := hbefore.size_eq rfl
  have hsize' := hbefore'.size_eq rfl
  have hlast := hbefore.last_eq
  have hlast' := hbefore'.last_eq
  rw [hup hsize] at hlast
  rw [hup hsize'] at hlast'
  obtain ⟨name, hname, ⟨htext, hend⟩, ⟨htext', hend'⟩, hcopies⟩ := h.exists_first Nat.one_pos
  rw [← hlast] at hend
  rw [← hlast'] at hend'
  obtain ⟨inner, hinner, hinner', hmem⟩ := h.exists_inner Nat.one_pos
  have hblank : ∀ position ∈ inner, sheet.text position.1 position.2 = .ok "" := fun place hplace =>
    (hmem place hplace).2.2.2.resolve_left (by have := (hmem place hplace).1; omega)
  have hblank' : ∀ position ∈ inner.map move.position,
      other.text position.1 position.2 = .ok "" := by
    refine List.forall_mem_map.2 fun place hplace => ?_
    obtain ⟨hrow, hcolumn, hin, -⟩ := hmem place hplace
    refine (h.text_eq hrow.1 hrow.2 hcolumn.1 hcolumn.2 ?_ hin).trans (hblank place hplace)
    simp only [position]
    omega
  rw [hinner, List.foldlM_cons, step_of_final Nat.one_pos htext hname hend] at hfold
  have hnext : next = scan.attach ⟨name, move.first, move.last, []⟩ :=
    (Except.ok.inj ((foldlM_of_blank hblank _).symm.trans hfold)).symm
  subst hnext
  refine ⟨scan'.attach ⟨name, move.first', move.last', []⟩, _, _, ?_, hcopies,
    fun _ => hsize, fun _ => hsize', ?_, ?_⟩
  · rw [hinner', List.foldlM_cons, step_of_final Nat.one_pos htext' hname hend']
    exact foldlM_of_blank hblank' _
  · rw [hup hsize]
    exact hup hsize
  · rw [hup hsize']
    exact hup hsize'

/-- A block of several header rows is its label with what hangs under it. -/
theorem exists_passes_of_lt (h : move.Framed sheet other headerRows) (hlt : 1 < headerRows)
    (hbefore : BeforeBlock sheet headerRows scan) (hbefore' : BeforeBlock other headerRows scan')
    (hfold : (blockPositions headerRows move.first (move.last' - move.first' + 1)).foldlM
      (step sheet headerRows) scan = .ok next) :
    ∃ next' label label',
      (blockPositions headerRows move.first' (move.last' - move.first' + 1)).foldlM
        (step other headerRows) scan' = .ok next' ∧
      Passes move headerRows scan scan' next next' label label' := by
  obtain ⟨name, hname, ⟨htext, hend⟩, ⟨htext', hend'⟩, hcopies⟩ :=
    h.exists_first (Nat.zero_lt_of_lt hlt)
  rw [← hbefore.last_eq] at hend
  rw [← hbefore'.last_eq] at hend'
  obtain ⟨inner, hinner, hinner', hmem⟩ := h.exists_inner (Nat.zero_lt_of_lt hlt)
  rw [hinner, List.foldlM_cons,
    step_of_lt Nat.one_pos hlt scan.size_pos htext hname hend] at hfold
  have hopened : Twin move (scan.upTo 1).top (scan'.upTo 1).top
      ((scan.upTo 1).descend ⟨name, move.first, move.last, []⟩)
      ((scan'.upTo 1).descend ⟨name, move.first', move.last', []⟩) := by
    rw [BeforeBlock.upTo_one_eq scan, BeforeBlock.upTo_one_eq scan']
    exact .opened hcopies
  obtain ⟨next', hnext', htwin⟩ := exists_foldlM h.toShows hmem hopened hfold
  obtain ⟨label, label', hlabel, hlabel', hcopies⟩ := htwin.exists_upTo_one
  rw [← BeforeBlock.upTo_one_eq] at hlabel hlabel'
  refine ⟨next', label, label', ?_, hcopies, fun h => by omega, fun h => by omega, hlabel, hlabel'⟩
  rw [hinner', List.foldlM_cons, step_of_lt Nat.one_pos hlt scan'.size_pos htext' hname hend']
  exact hnext'

/-- **A block is scanned into copies of one label**, whatever has been scanned before. -/
theorem exists_passes (h : move.Framed sheet other headerRows) (hpos : 0 < headerRows)
    (hbefore : BeforeBlock sheet headerRows scan) (hbefore' : BeforeBlock other headerRows scan')
    (hfold : (blockPositions headerRows move.first (move.last + 1 - move.first)).foldlM
      (step sheet headerRows) scan = .ok next) :
    ∃ next' label label',
      (blockPositions headerRows move.first' (move.last' + 1 - move.first')).foldlM
        (step other headerRows) scan' = .ok next' ∧
      Passes move headerRows scan scan' next next' label label' := by
  have hle := h.le
  have hfirst' := h.first_le'
  -- the columns that are cut off in the other sheet are blank
  have hsplit : move.last + 1 - move.first = (move.last' - move.first' + 1) +
      (move.last + 1 - move.first - (move.last' - move.first' + 1)) := by omega
  rw [hsplit, blockPositions_add, List.foldlM_append] at hfold
  obtain ⟨inside, hinside, hcut⟩ := bind_eq_ok.1 hfold
  rw [foldlM_of_blank] at hcut
  · cases hcut
    rw [show move.last' + 1 - move.first' = move.last' - move.first' + 1 by omega]
    rcases (Nat.succ_le_of_lt hpos).eq_or_lt with rfl | hlt
    · exact h.exists_passes_of_one hbefore hbefore' hinside
    · exact h.exists_passes_of_lt hlt hbefore hbefore' hinside
  · rintro ⟨row, column⟩ hposition
    obtain ⟨hrow, hcolumn⟩ := mem_blockPositions.1 hposition
    exact h.blank hrow.1 hrow.2 (by omega) (by omega) (by omega)

end Framed

end Move

end TableExport
