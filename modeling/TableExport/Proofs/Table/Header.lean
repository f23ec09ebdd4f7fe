import TableExport.Proofs.Table.Authored

/-!
# The layout of a written header

The header of a written table is scanned into the layout that mirrors the type tree: each field has
its name, its first column and as many columns as it has leaves (`ofSheet_labels`), and that layout
covers the fields (`covers_layout`).

A scan visits the labels in the order in which they are written (`foldlM_headerPositions`). Its
state is a stack; what matters at depth `d` is the stack once all labels at depth `d` and below are
closed (`HeaderScan.upTo`). The invariant of the induction is that the labels of a field at depth
`d`, scanned from any state, hang the layout of the field under that stack (`scan_labels`).
-/

namespace TableExport

/-! ## Stacks of open labels -/

namespace HeaderScan

/-- The scan with labels hung under the innermost open one. -/
def attachAll (scan : HeaderScan) (labels : List Layout) : HeaderScan :=
  { scan with top := { scan.top with members := scan.top.members ++ labels } }

/-- The scan with all labels at a depth and below closed. -/
def upTo (depth : Nat) (scan : HeaderScan) : HeaderScan := scan.close (scan.size - depth)

@[simp] theorem attachAll_nil (scan : HeaderScan) : scan.attachAll [] = scan := by
  obtain ⟨⟨_, _, _, _⟩, _⟩ := scan
  simp [attachAll]

theorem attachAll_cons (scan : HeaderScan) (label : Layout) (labels : List Layout) :
    scan.attachAll (label :: labels) = (scan.attach label).attachAll labels := by
  simp [attachAll, attach]

@[simp] theorem size_descend (scan : HeaderScan) (label : Layout) :
    (scan.descend label).size = scan.size + 1 := rfl

theorem size_pos (scan : HeaderScan) : 0 < scan.size := Nat.succ_pos _

@[simp] theorem close_zero (scan : HeaderScan) : scan.close 0 = scan := by
  rw [close]

theorem size_close {levels : Nat} {scan : HeaderScan} (h : levels < scan.size) :
    (scan.close levels).size = scan.size - levels := by
  induction levels generalizing scan with
  | zero => simp
  | succ levels ih =>
    obtain ⟨top, below⟩ := scan
    cases below with
    | nil => simp [size] at h
    | cons parent below =>
      rw [close, ih (by simp [size, attach] at h ⊢; omega)]
      simp only [size, attach, List.length_cons]
      omega

theorem close_add (first second : Nat) (scan : HeaderScan) :
    scan.close (first + second) = (scan.close first).close second := by
  induction first generalizing scan with
  | zero => simp
  | succ first ih =>
    obtain ⟨top, below⟩ := scan
    rw [Nat.add_right_comm]
    cases below with
    | nil =>
      cases second with
      | zero => simp
      | succ second => simp only [close]
    | cons parent below => rw [close, close, ih]

theorem size_upTo {depth : Nat} {scan : HeaderScan} (hpos : 0 < depth) (h : depth ≤ scan.size) :
    (scan.upTo depth).size = depth := by
  rw [upTo, size_close (by omega)]
  omega

theorem upTo_size (scan : HeaderScan) : scan.upTo scan.size = scan := by
  simp [upTo]

/-- One level less is one label closed. -/
theorem upTo_eq_close {depth : Nat} {scan : HeaderScan} (h : depth + 1 ≤ scan.size) :
    scan.upTo depth = (scan.upTo (depth + 1)).close 1 := by
  rw [upTo, upTo, ← close_add]
  congr 1
  omega

/-- A label that is opened and closed again hangs under the one around it with all that was hung
under it. -/
theorem close_attachAll_descend (scan : HeaderScan) (label : Layout) (labels : List Layout) :
    ((scan.descend label).attachAll labels).close 1 =
      scan.attach { label with members := label.members ++ labels } := by
  simp [descend, attachAll, close, attach]

/-! ## Steps of a scan -/

variable {sheet : Sheet} {headerRows row column last : Nat} {name : String} {scan : HeaderScan}

theorem step_of_blank (h : sheet.text row column = .ok "") :
    step sheet headerRows scan (row, column) = .ok scan := by
  simp [step, h, Except.mapError, bind, Except.bind, pure, Except.pure]

/-- A label above the final row is opened once the labels in its row and below are closed, whatever
the transition is called. -/
theorem step_of_lt (hrow : 0 < row) (hlt : row < headerRows) (hsize : row ≤ scan.size)
    (htext : sheet.text row column = .ok name) (hname : name ≠ "")
    (hend : endBefore sheet row (scan.upTo row).top.last (column + 1)
      ((scan.upTo row).top.last - column) = .ok last) :
    step sheet headerRows scan (row, column) =
      .ok ((scan.upTo row).descend ⟨name, column, last, []⟩) := by
  have hne : name.isEmpty = false := by simpa [String.isEmpty_iff] using hname
  have hpos := scan.size_pos
  simp only [step, htext, Except.mapError, bind, Except.bind, hne, Bool.false_eq_true, if_false,
    Transition.of?, if_neg (show ¬ (scan.size = 0 ∨ row = 0) by omega), if_neg hlt.ne,
    if_neg (show ¬ scan.size < row by omega)]
  by_cases hdescend : row = scan.size
  · subst hdescend
    rw [upTo_size] at hend ⊢
    simp [labelAt, hend, bind, Except.bind, pure, Except.pure]
  · rw [if_neg hdescend]
    by_cases hsibling : row + 1 = scan.size
    · have hup : scan.upTo row = scan.close 1 := by
        rw [upTo]
        congr 1
        omega
      rw [hup] at hend ⊢
      simp [if_pos hsibling, labelAt, hend, bind, Except.bind, pure, Except.pure]
    · rw [upTo] at hend ⊢
      simp [if_neg hsibling, labelAt, hend, bind, Except.bind, pure, Except.pure]

/-- A label of the final row hangs under the innermost open one. -/
theorem step_of_final (hrow : 0 < row) (htext : sheet.text row column = .ok name)
    (hname : name ≠ "")
    (hend : endBefore sheet row scan.top.last (column + 1) (scan.top.last - column) = .ok last) :
    step sheet row scan (row, column) = .ok (scan.attach ⟨name, column, last, []⟩) := by
  have hne : name.isEmpty = false := by simpa [String.isEmpty_iff] using hname
  have hpos := scan.size_pos
  simp [step, htext, Except.mapError, bind, Except.bind, hne, Transition.of?,
    show ¬ (scan.size = 0 ∨ row = 0) by omega, labelAt, hend, pure, Except.pure]

/-- A label ends before the next one of its row. -/
theorem endBefore_of_text {stop count : Nat} (hstop : column ≤ stop)
    (hblank : ∀ other, column ≤ other → other < stop → sheet.text row other = .ok "")
    (hin : stop < column + count) (htext : sheet.text row stop = .ok name) (hname : name ≠ "") :
    endBefore sheet row last column count = .ok (stop - 1) := by
  induction count generalizing column with
  | zero => omega
  | succ count ih =>
    by_cases heq : column = stop
    · subst heq
      have hne : name.isEmpty = false := by simpa [String.isEmpty_iff] using hname
      simp [endBefore, htext, bind, Except.bind, hne, pure, Except.pure]
    · have hfirst := hblank column (le_refl _) (by omega)
      simp only [endBefore, hfirst, bind, Except.bind]
      exact ih (by omega) (fun other h₁ h₂ => hblank other (by omega) h₂) (by omega)

/-- The last label of its row ends where the one around it does. -/
theorem endBefore_of_blank {count : Nat}
    (hblank : ∀ other, column ≤ other → other < column + count →
      sheet.text row other = .ok "") :
    endBefore sheet row last column count = .ok last := by
  induction count generalizing column with
  | zero => rfl
  | succ count ih =>
    have hfirst := hblank column (le_refl _) (by omega)
    simp only [endBefore, hfirst, bind, Except.bind]
    exact ih fun other h₁ h₂ => hblank other (by omega) (by omega)

end HeaderScan

namespace Authored

/-! ## The layout of a type tree -/

mutual

/-- The layout of a field from a column on. -/
def layout (column : Nat) : TypeTree → Layout
  | .leaf field _ => ⟨field.name, column, column, []⟩
  | .composite field members =>
    ⟨field.name, column, column + TypeTree.widthAll members - 1, layouts column members⟩

/-- The layouts of fields beside each other. -/
def layouts (column : Nat) : List TypeTree → List Layout
  | [] => []
  | member :: rest => layout column member :: layouts (column + member.width) rest

end

/-- The fields beside each other with their first columns. -/
def placed (column : Nat) : List TypeTree → List (Nat × TypeTree)
  | [] => []
  | member :: rest => (column, member) :: placed (column + member.width) rest

theorem layouts_eq_map (column : Nat) (members : List TypeTree) :
    layouts column members = (placed column members).map fun place => layout place.1 place.2 := by
  induction members generalizing column with
  | nil => rw [layouts]; rfl
  | cons member rest ih => rw [layouts, ih]; rfl

theorem map_snd_placed (column : Nat) (members : List TypeTree) :
    (placed column members).map Prod.snd = members := by
  induction members generalizing column with
  | nil => rfl
  | cons member rest ih => rw [placed, List.map_cons, ih]

theorem exists_placed {members : List TypeTree} (column : Nat) {member : TypeTree}
    (hm : member ∈ members) : ∃ first, (first, member) ∈ placed column members := by
  rw [← map_snd_placed column members] at hm
  obtain ⟨⟨first, _⟩, hplace, rfl⟩ := List.mem_map.1 hm
  exact ⟨first, hplace⟩

theorem mem_of_placed {members : List TypeTree} {column first : Nat} {member : TypeTree}
    (h : (first, member) ∈ placed column members) : member ∈ members := by
  rw [← map_snd_placed column members]
  exact List.mem_map_of_mem h

@[simp] theorem name_layout (column : Nat) (tree : TypeTree) :
    (layout column tree).name = tree.name := by
  cases tree <;> rw [layout] <;> rfl

@[simp] theorem map_name_layouts (column : Nat) (members : List TypeTree) :
    (layouts column members).map Layout.name = members.map TypeTree.name := by
  induction members generalizing column with
  | nil => rw [layouts, List.map_nil, List.map_nil]
  | cons member rest ih => rw [layouts, List.map_cons, List.map_cons, name_layout, ih]

@[simp] theorem first_layout (column : Nat) (tree : TypeTree) :
    (layout column tree).first = column := by
  cases tree <;> rw [layout]

/-! ## Where labels stand -/

section Labels

variable {style : Nat → Nat → CellKind}

mutual

/-- The labels of a field stand in its columns, and in the header rows from its own on. -/
theorem mem_labels : ∀ (tree : TypeTree) {row column : Nat} {cell : Cell}, tree.Authorable →
    cell ∈ labels style row column tree →
    (row ≤ cell.row ∧ cell.row ≤ row + tree.maxDepth) ∧
      (column ≤ cell.column ∧ cell.column < column + tree.width)
  | .leaf field type, row, column, cell, _, hc => by
    rw [labels, List.mem_singleton] at hc
    subst hc
    simp [TypeTree.width]
  | .composite field members, row, column, cell, ht, hc => by
    have hpos := ht.width_pos
    rw [labels] at hc
    simp only [TypeTree.width, TypeTree.maxDepth] at hpos ⊢
    rcases List.mem_cons.1 hc with rfl | hc
    · simp only
      omega
    · have := mem_labelsAll members ht.2.2.2 hc
      omega

theorem mem_labelsAll : ∀ (members : List TypeTree) {row column : Nat} {cell : Cell},
    TypeTree.AuthorableAll members → cell ∈ labelsAll style row column members →
    (row ≤ cell.row ∧ cell.row ≤ row + TypeTree.maxDepthAll members) ∧
      (column ≤ cell.column ∧ cell.column < column + TypeTree.widthAll members)
  | [], _, _, _, _, hc => by cases hc
  | member :: rest, row, column, cell, ht, hc => by
    rw [labelsAll] at hc
    simp only [TypeTree.widthAll, TypeTree.maxDepthAll]
    rcases List.mem_append.1 hc with hc | hc
    · have := mem_labels member ht.1 hc
      omega
    · have := mem_labelsAll rest ht.2 hc
      omega

end

/-- A label is not blank. -/
theorem isBlank_label (hstyle : ∀ row column, (style row column).isText = true)
    {row column : Nat} {name : String} (hne : name ≠ "") :
    (Cell.mk row column (style row column) name).isBlank = false := by
  have hkind : (style row column == .empty) = false := by
    have := hstyle row column
    cases hempty : style row column <;> simp_all [CellKind.isText]
  simp [Cell.isBlank, hkind, hne]

mutual

theorem filled_labels (hstyle : ∀ row column, (style row column).isText = true) :
    ∀ (tree : TypeTree) {row column : Nat}, tree.Authorable → tree.name ≠ "" →
      ∀ cell ∈ labels style row column tree, cell.isBlank = false
  | .leaf field type, row, column, _, hne, cell, hc => by
    rw [labels, List.mem_singleton] at hc
    exact hc ▸ isBlank_label hstyle hne
  | .composite field members, row, column, ht, hne, cell, hc => by
    rw [labels] at hc
    rcases List.mem_cons.1 hc with rfl | hc
    · exact isBlank_label hstyle hne
    · exact filled_labelsAll hstyle members ht.2.2.2 ht.2.1.ne_empty cell hc

/-- Labels are not blank. -/
theorem filled_labelsAll (hstyle : ∀ row column, (style row column).isText = true) :
    ∀ (members : List TypeTree) {row column : Nat}, TypeTree.AuthorableAll members →
      (∀ member ∈ members, member.name ≠ "") →
      ∀ cell ∈ labelsAll style row column members, cell.isBlank = false
  | [], _, _, _, _, _, hc => by cases hc
  | member :: rest, row, column, ht, hne, cell, hc => by
    rw [labelsAll] at hc
    rcases List.mem_append.1 hc with hc | hc
    · exact filled_labels hstyle member ht.1 (hne member (List.mem_cons_self ..)) cell hc
    · exact filled_labelsAll hstyle rest ht.2
        (fun other ho => hne other (List.mem_cons_of_mem _ ho)) cell hc

end

/-- A field's own label is the first one. -/
theorem exists_labels_eq (style : Nat → Nat → CellKind) (row column : Nat) (tree : TypeTree) :
    ∃ below, labels style row column tree =
      ⟨row, column, style row column, tree.name⟩ :: below := by
  cases tree with
  | leaf field type => exact ⟨[], by rw [labels]; rfl⟩
  | composite field members => exact ⟨labelsAll style (row + 1) column members, by rw [labels]; rfl⟩

mutual

/-- Some label stands in the last column of a field. -/
theorem exists_label_last : ∀ (tree : TypeTree) (row column : Nat), tree.Authorable →
    ∃ cell ∈ labels style row column tree, cell.column + 1 = column + tree.width
  | .leaf field type, row, column, _ => by
    rw [labels]
    exact ⟨_, List.mem_singleton_self _, rfl⟩
  | .composite field members, row, column, ht => by
    obtain ⟨cell, hc, hcell⟩ := exists_labelAll_last members (row + 1) column ht.1 ht.2.2.2
    rw [labels]
    exact ⟨cell, List.mem_cons_of_mem _ hc, hcell⟩

theorem exists_labelAll_last : ∀ (members : List TypeTree) (row column : Nat), members ≠ [] →
    TypeTree.AuthorableAll members →
    ∃ cell ∈ labelsAll style row column members,
      cell.column + 1 = column + TypeTree.widthAll members
  | [], _, _, hne, _ => absurd rfl hne
  | [member], row, column, _, ht => by
    obtain ⟨cell, hc, hcell⟩ := exists_label_last member row column ht.1
    exact ⟨cell, by simpa [labelsAll] using hc, by simpa [TypeTree.widthAll] using hcell⟩
  | member :: next :: rest, row, column, _, ht => by
    obtain ⟨cell, hc, hcell⟩ := exists_labelAll_last (next :: rest) row (column + member.width)
      (List.cons_ne_nil _ _) ht.2
    refine ⟨cell, ?_, ?_⟩
    · rw [labelsAll]
      exact List.mem_append_right _ hc
    · rw [hcell, Nat.add_assoc]
      rfl

end

/-! ## The order of the labels -/

/-- The order in which the positions of a header are scanned. -/
def Before (a b : Nat × Nat) : Prop := a.2 < b.2 ∨ a.2 = b.2 ∧ a.1 < b.1

instance : Std.Irrefl Before := ⟨fun a h => by simp [Before] at h⟩

instance : Std.Antisymm Before := ⟨fun a b h₁ h₂ => by
  simp only [Before] at h₁ h₂
  omega⟩

theorem pairwise_headerPositions (columns rows : Nat) :
    (Layout.headerPositions columns rows).Pairwise Before := by
  rw [Layout.headerPositions, List.pairwise_flatMap]
  constructor
  · intro column _
    rw [List.pairwise_map]
    exact (List.pairwise_lt_range' 1).imp fun h => Or.inr ⟨rfl, h⟩
  · refine (List.pairwise_lt_range' 1).imp fun h a ha b hb => ?_
    obtain ⟨_, _, rfl⟩ := List.mem_map.1 ha
    obtain ⟨_, _, rfl⟩ := List.mem_map.1 hb
    exact Or.inl h

theorem mem_headerPositions {columns rows : Nat} {position : Nat × Nat} :
    position ∈ Layout.headerPositions columns rows ↔
      (1 ≤ position.1 ∧ position.1 ≤ rows) ∧ (1 ≤ position.2 ∧ position.2 ≤ columns) := by
  obtain ⟨row, column⟩ := position
  simp only [Layout.headerPositions, List.mem_flatMap, List.mem_map, List.mem_range'_1,
    Prod.mk.injEq]
  constructor
  · rintro ⟨c, hc, r, hr, rfl, rfl⟩
    omega
  · intro h
    exact ⟨column, by omega, row, by omega, rfl, rfl⟩

/-- The positions of some cells. -/
def positions (cells : List Cell) : List (Nat × Nat) :=
  cells.map fun cell => (cell.row, cell.column)

theorem mem_positions {cells : List Cell} {row column : Nat} :
    (row, column) ∈ positions cells ↔ ∃ cell ∈ cells, Sheet.IsAt row column cell := by
  simp [positions, Sheet.IsAt]

mutual

/-- Labels are written in the order in which a header is scanned. -/
theorem pairwise_labels : ∀ (tree : TypeTree) (row column : Nat), tree.Authorable →
    (positions (labels style row column tree)).Pairwise Before
  | .leaf field type, row, column, _ => by
    rw [labels]
    exact List.pairwise_singleton _ _
  | .composite field members, row, column, ht => by
    rw [labels, positions, List.map_cons, List.pairwise_cons]
    refine ⟨fun position hp => ?_, pairwise_labelsAll members (row + 1) column ht.2.2.2⟩
    obtain ⟨cell, hc, rfl⟩ := List.mem_map.1 hp
    have := mem_labelsAll members ht.2.2.2 hc
    simp only [Before]
    omega

theorem pairwise_labelsAll : ∀ (members : List TypeTree) (row column : Nat),
    TypeTree.AuthorableAll members →
    (positions (labelsAll style row column members)).Pairwise Before
  | [], _, _, _ => by
    rw [labelsAll]
    exact List.Pairwise.nil
  | member :: rest, row, column, ht => by
    rw [labelsAll, positions, List.map_append, List.pairwise_append]
    refine ⟨pairwise_labels member row column ht.1, pairwise_labelsAll rest row _ ht.2,
      fun a ha b hb => ?_⟩
    obtain ⟨first, hfirst, rfl⟩ := List.mem_map.1 ha
    obtain ⟨second, hsecond, rfl⟩ := List.mem_map.1 hb
    have := (mem_labels member ht.1 hfirst).2
    have := (mem_labelsAll rest ht.2 hsecond).2
    simp only [Before]
    omega

end

/-- No two labels share a position. -/
theorem separate_labelsAll {members : List TypeTree} (ht : TypeTree.AuthorableAll members)
    (row column : Nat) : Sheet.Separate (labelsAll style row column members) := by
  have hnodup : (positions (labelsAll style row column members)).Nodup :=
    (pairwise_labelsAll members row column ht).nodup
  intro a ha b hb hrow hcolumn
  exact List.inj_on_of_nodup_map hnodup ha hb (Prod.ext hrow hcolumn)

/-! ## Reading a header -/

variable {sheet : Sheet}

/-- The text of a text cell. -/
theorem text_of_isText {row column : Nat} {cell : Cell}
    (hget : sheet.get? row column = some cell) (hfilled : cell.isBlank = false)
    (hkind : cell.kind.isText = true) : sheet.text row column = .ok (trim cell.value) := by
  have hdisplay : cell.display = .ok cell.value := by
    obtain ⟨row', column', kind, value⟩ := cell
    cases kind <;> simp_all [CellKind.isText, Cell.display]
  simp [Sheet.text, hget, hfilled, hdisplay, Except.map]

theorem text_of_isBlank {row column : Nat} (h : sheet.isBlank row column = true) :
    sheet.text row column = .ok "" := by
  cases hget : sheet.get? row column with
  | none => simp [Sheet.text, hget]
  | some cell =>
    rw [Sheet.isBlank_of_get?_eq_some hget] at h
    simp [Sheet.text, hget, h]

/-- A field's label is read as its name. -/
theorem text_label (hstyle : ∀ row column, (style row column).isText = true) {tree : TypeTree}
    {row bottom column right : Nat} (htrim : trim tree.name = tree.name)
    (h : sheet.Holds (labels style row column tree) row bottom column right) :
    sheet.text row column = .ok tree.name := by
  obtain ⟨below, hbelow⟩ := exists_labels_eq style row column tree
  rw [hbelow] at h
  have htext := text_of_isText (h.shown _ (List.mem_cons_self ..))
    (h.filled _ (List.mem_cons_self ..)) (hstyle row column)
  rw [htext, htrim]

/-- What is known of the row of a field after its last column: the enclosing range ends there, or
the next label stands there. -/
def EndsAt (sheet : Sheet) (row stop last : Nat) : Prop :=
  stop = last + 1 ∨ stop ≤ last ∧ ∃ name, name ≠ "" ∧ sheet.text row stop = .ok name

/-- A field's label reaches over the columns of the field. -/
theorem endBefore_label {tree : TypeTree} {row bottom column last : Nat} (ht : tree.Authorable)
    (hbottom : row ≤ bottom)
    (h : sheet.Holds (labels style row column tree) row bottom column (column + tree.width))
    (hend : EndsAt sheet row (column + tree.width) last) :
    HeaderScan.endBefore sheet row last (column + 1) (last - column) =
      .ok (column + tree.width - 1) := by
  have hpos := ht.width_pos
  -- below its own label a field has labels in deeper rows only
  have hblank : ∀ other, column + 1 ≤ other → other < column + tree.width →
      sheet.text row other = .ok "" := by
    intro other h₁ h₂
    apply text_of_isBlank
    apply h.blank row other (le_refl _) hbottom (by omega) h₂
    rintro cell hc ⟨hrow, hcolumn⟩
    cases tree with
    | leaf field type =>
      rw [labels, List.mem_singleton] at hc
      subst hc
      simp only at hcolumn
      omega
    | composite field members =>
      rw [labels] at hc
      rcases List.mem_cons.1 hc with rfl | hc
      · simp only at hcolumn
        omega
      · have := (mem_labelsAll members ht.2.2.2 hc).1
        omega
  rcases hend with hend | ⟨hle, name, hname, htext⟩
  · rw [HeaderScan.endBefore_of_blank fun other h₁ h₂ => hblank other h₁ (by omega)]
    congr 1
    omega
  · exact HeaderScan.endBefore_of_text (by omega) hblank (by omega) htext hname

/-- A scan that has opened the labels around a row and no more than the header has rows. -/
structure ReadyAt (row headerRows : Nat) (scan : HeaderScan) : Prop where
  pos : 0 < row
  le_size : row ≤ scan.size
  size_le : scan.size ≤ headerRows

/-- Opening a field's label makes the scan ready for the labels below it. -/
theorem ReadyAt.descend {row headerRows : Nat} {scan : HeaderScan}
    (h : ReadyAt row headerRows scan) (hlt : row < headerRows) (label : Layout) :
    ReadyAt (row + 1) headerRows ((scan.upTo row).descend label) ∧
      ((scan.upTo row).descend label).upTo (row + 1) = (scan.upTo row).descend label := by
  have hsize : ((scan.upTo row).descend label).size = row + 1 := by
    rw [HeaderScan.size_descend, HeaderScan.size_upTo h.pos h.le_size]
  refine ⟨⟨Nat.succ_pos row, hsize.ge, hsize ▸ hlt⟩, ?_⟩
  conv_rhs => rw [← HeaderScan.upTo_size ((scan.upTo row).descend label), hsize]

mutual

/-- **The labels of a field hang its layout under the label around it.** -/
theorem scan_labels (hstyle : ∀ row column, (style row column).isText = true)
    {headerRows : Nat} : ∀ (tree : TypeTree) {row column : Nat} {scan : HeaderScan},
    tree.Authorable → tree.name ≠ "" → trim tree.name = tree.name →
    sheet.Holds (labels style row column tree) row headerRows column (column + tree.width) →
    EndsAt sheet row (column + tree.width) (scan.upTo row).top.last →
    row + tree.maxDepth ≤ headerRows → ReadyAt row headerRows scan →
    ∃ scan', (positions (labels style row column tree)).foldlM
        (HeaderScan.step sheet headerRows) scan = .ok scan' ∧
      ReadyAt row headerRows scan' ∧
      scan'.upTo row = (scan.upTo row).attach (layout column tree)
  | .leaf field type, row, column, scan, ht, hne, htrim, h, hend, hdepth, hready => by
    have hrow : row ≤ headerRows := by omega
    have htext := text_label hstyle htrim h
    have hlast := endBefore_label ht hrow h hend
    rw [labels, positions, List.map_singleton, List.foldlM_cons]
    by_cases hfinal : row = headerRows
    · subst hfinal
      -- in the final row all labels below are closed already
      have hsize : scan.size = row := le_antisymm hready.size_le hready.le_size
      have hup : ∀ other : HeaderScan, other.size = row → other.upTo row = other := by
        rintro other rfl
        exact other.upTo_size
      rw [hup scan hsize] at hlast ⊢
      rw [HeaderScan.step_of_final hready.pos htext hne hlast]
      exact ⟨_, rfl, ⟨hready.pos, hready.le_size, hready.size_le⟩, hup _ hsize⟩
    · have hlt : row < headerRows := by omega
      obtain ⟨hready', hup⟩ := hready.descend hlt ⟨field.name, column, column, []⟩
      rw [HeaderScan.step_of_lt hready.pos hlt hready.le_size htext hne hlast]
      refine ⟨_, rfl, ⟨hready.pos, (Nat.le_succ row).trans hready'.le_size, hready'.size_le⟩, ?_⟩
      refine (HeaderScan.upTo_eq_close hready'.le_size).trans ?_
      exact (congrArg (HeaderScan.close 1) hup).trans (by rw [layout]; rfl)
  | .composite field members, row, column, scan, ht, hne, htrim, h, hend, hdepth, hready => by
    have hpos := ht.width_pos
    simp only [TypeTree.maxDepth] at hdepth
    have hlt : row < headerRows := by omega
    have htext := text_label hstyle htrim h
    have hlast := endBefore_label ht hlt.le h hend
    rw [labels, ← List.singleton_append] at h
    have hbelow := (h.above (row + 1) (Nat.le_succ row)
      (by simp) fun cell hc => (mem_labelsAll members ht.2.2.2 hc).1.1).2
    obtain ⟨hready', hup⟩ := hready.descend hlt
      ⟨field.name, column, column + TypeTree.widthAll members - 1, []⟩
    obtain ⟨scan', hscan, hready'', hscan'⟩ := scan_labelsAll hstyle members ht.2.2.2
      ht.2.1.ne_empty ht.2.1.trim_eq hbelow
      (fun _ => by
        rw [hup]
        simp only [TypeTree.width] at hpos
        simp only [HeaderScan.descend]
        omega)
      (by omega) hready'
    rw [labels, positions, List.map_cons, List.foldlM_cons,
      HeaderScan.step_of_lt hready.pos hlt hready.le_size htext hne hlast]
    refine ⟨scan', hscan, ⟨hready.pos, (Nat.le_succ row).trans hready''.le_size,
      hready''.size_le⟩, ?_⟩
    rw [HeaderScan.upTo_eq_close hready''.le_size, hscan', hup,
      HeaderScan.close_attachAll_descend, layout]
    rfl

theorem scan_labelsAll (hstyle : ∀ row column, (style row column).isText = true)
    {headerRows : Nat} : ∀ (members : List TypeTree) {row column : Nat} {scan : HeaderScan},
    TypeTree.AuthorableAll members → (∀ member ∈ members, member.name ≠ "") →
    (∀ member ∈ members, trim member.name = member.name) →
    sheet.Holds (labelsAll style row column members) row headerRows column
      (column + TypeTree.widthAll members) →
    (members ≠ [] → column + TypeTree.widthAll members = (scan.upTo row).top.last + 1) →
    row + TypeTree.maxDepthAll members ≤ headerRows → ReadyAt row headerRows scan →
    ∃ scan', (positions (labelsAll style row column members)).foldlM
        (HeaderScan.step sheet headerRows) scan = .ok scan' ∧
      ReadyAt row headerRows scan' ∧
      scan'.upTo row = (scan.upTo row).attachAll (layouts column members)
  | [], row, column, scan, _, _, _, _, _, _, hready => by
    rw [labelsAll, layouts, HeaderScan.attachAll_nil]
    exact ⟨scan, rfl, hready, rfl⟩
  | member :: rest, row, column, scan, ht, hne, htrim, h, hend, hdepth, hready => by
    have hwidth := hend (List.cons_ne_nil _ _)
    simp only [TypeTree.maxDepthAll] at hdepth
    rw [labelsAll] at h
    simp only [TypeTree.widthAll] at h hwidth
    obtain ⟨hmember, hrest⟩ := h.beside (column + member.width) (by omega)
      (fun cell hc => (mem_labels member ht.1 hc).2.2)
      (fun cell hc => (mem_labelsAll rest ht.2 hc).2.1)
    have hends : EndsAt sheet row (column + member.width) (scan.upTo row).top.last := by
      cases rest with
      | nil => exact Or.inl hwidth
      | cons next more =>
        have hpos := ht.2.1.width_pos
        rw [labelsAll] at hrest
        simp only [TypeTree.widthAll] at hrest hwidth
        refine Or.inr ⟨by omega, next.name, hne next (by simp), ?_⟩
        exact text_label hstyle (htrim next (by simp))
          (hrest.beside (column + member.width + next.width) (by omega)
            (fun cell hc => (mem_labels next ht.2.1 hc).2.2)
            (fun cell hc => (mem_labelsAll more ht.2.2 hc).2.1)).1
    obtain ⟨scan₁, hscan₁, hready₁, hup₁⟩ := scan_labels hstyle member ht.1 (hne member (by simp))
      (htrim member (by simp)) hmember hends (by omega) hready
    obtain ⟨scan₂, hscan₂, hready₂, hup₂⟩ := scan_labelsAll hstyle rest ht.2
      (fun other hm => hne other (List.mem_cons_of_mem _ hm))
      (fun other hm => htrim other (List.mem_cons_of_mem _ hm))
      (by rw [Nat.add_assoc]; exact hrest)
      (fun _ => by
        rw [hup₁]
        simp only [HeaderScan.attach]
        omega)
      (by omega) hready₁
    refine ⟨scan₂, ?_, hready₂, ?_⟩
    · rw [labelsAll, positions, List.map_append, List.foldlM_append]
      exact (congrArg (· >>= _) hscan₁).trans hscan₂
    · rw [hup₂, hup₁, layouts, HeaderScan.attachAll_cons]

end

/-- Blank positions may be left out of a scan. -/
theorem foldlM_filter {headerRows : Nat} (p : Nat × Nat → Bool) (scan : HeaderScan)
    {list : List (Nat × Nat)}
    (h : ∀ position ∈ list, p position = false → sheet.text position.1 position.2 = .ok "") :
    list.foldlM (HeaderScan.step sheet headerRows) scan =
      (list.filter p).foldlM (HeaderScan.step sheet headerRows) scan := by
  induction list generalizing scan with
  | nil => rfl
  | cons position rest ih =>
    have ih' := fun scan => ih scan fun other ho => h other (List.mem_cons_of_mem _ ho)
    rw [List.foldlM_cons]
    cases hp : p position with
    | true =>
      rw [List.filter_cons_of_pos hp, List.foldlM_cons]
      exact congrArg _ (funext ih')
    | false =>
      rw [List.filter_cons_of_neg (by simp [hp]),
        HeaderScan.step_of_blank (h position (List.mem_cons_self ..) hp)]
      exact ih' scan

/-- A header that holds labels is scanned label by label. -/
theorem foldlM_headerPositions {members : List TypeTree} {headerRows : Nat}
    (ht : TypeTree.AuthorableAll members)
    (h : sheet.Holds (labelsAll style 1 1 members) 1 headerRows 1
      (1 + TypeTree.widthAll members)) (scan : HeaderScan) :
    (Layout.headerPositions (TypeTree.widthAll members) headerRows).foldlM
        (HeaderScan.step sheet headerRows) scan =
      (positions (labelsAll style 1 1 members)).foldlM
        (HeaderScan.step sheet headerRows) scan := by
  rw [foldlM_filter (fun position => position ∈ positions (labelsAll style 1 1 members))]
  · congr 1
    apply List.Pairwise.eq_of_mem_iff ((pairwise_headerPositions _ _).filter _)
      (pairwise_labelsAll members 1 1 ht)
    intro position
    rw [List.mem_filter, mem_headerPositions, decide_eq_true_eq, and_iff_right_iff_imp]
    intro hp
    obtain ⟨cell, hc, rfl⟩ := List.mem_map.1 hp
    have := h.inside cell hc
    omega
  · rintro ⟨row, column⟩ hp hnot
    rw [mem_headerPositions] at hp
    apply text_of_isBlank
    apply h.blank row column (by omega) (by omega) (by omega) (by omega)
    intro cell hc hat
    exact of_decide_eq_false hnot (mem_positions.2 ⟨cell, hc, hat⟩)

/-- **A written header is scanned into the layout of its type tree.** -/
theorem ofSheet_labels (hstyle : ∀ row column, (style row column).isText = true) {tree : TypeTree}
    (ht : tree.Authorable)
    (h : sheet.Holds (labelsAll style 1 1 tree.members) 1 tree.maxDepth 1
      (1 + TypeTree.widthAll tree.members))
    (hcolumns : sheet.maxColumn = TypeTree.widthAll tree.members) :
    Layout.ofSheet sheet tree.maxDepth =
      .ok ⟨TypeTree.rootName, 1, TypeTree.widthAll tree.members, layouts 1 tree.members⟩ := by
  cases tree with
  | leaf field type =>
    simp only [TypeTree.members, TypeTree.widthAll] at hcolumns
    simp only [Layout.ofSheet, hcolumns]
    rfl
  | composite field members =>
    simp only [TypeTree.members] at h hcolumns ⊢
    let start : HeaderScan := ⟨⟨TypeTree.rootName, 1, TypeTree.widthAll members, []⟩, []⟩
    have hready : ReadyAt 1 (TypeTree.composite field members).maxDepth start := by
      refine ⟨Nat.one_pos, le_refl _, ?_⟩
      simp only [start, HeaderScan.size, TypeTree.maxDepth, List.length_nil]
      omega
    obtain ⟨scan, hscan, hready', hroot⟩ := scan_labelsAll hstyle members ht.2.2.2
      ht.2.1.ne_empty ht.2.1.trim_eq h (fun _ => Nat.add_comm _ _)
      (by simp only [TypeTree.maxDepth]; omega) hready
    have hup : scan.root = (scan.upTo 1).top := rfl
    simp only [Layout.ofSheet, hcolumns, foldlM_headerPositions ht.2.2.2 h]
    rw [hscan]
    exact congrArg Except.ok (hup.trans (congrArg HeaderScan.top hroot))

end Labels

/-! ## The layout covers its fields -/

/-- The layout of a field is found under its name. -/
theorem find?_layouts {members : List TypeTree} (hnodup : (members.map TypeTree.name).Nodup)
    (column : Nat) {member : TypeTree} (hm : member ∈ members) :
    ∃ first, (layouts column members).find? (·.name == member.name) =
      some (layout first member) := by
  induction members generalizing column with
  | nil => cases hm
  | cons other rest ih =>
    rw [List.map_cons, List.nodup_cons] at hnodup
    rw [layouts]
    rcases List.mem_cons.1 hm with rfl | hm
    · exact ⟨column, by simp⟩
    · have hne : other.name ≠ member.name := fun h =>
        hnodup.1 (h ▸ List.mem_map_of_mem hm)
      rw [List.find?_cons_of_neg (by simpa using hne)]
      exact ih hnodup.2 _ hm

mutual

/-- **The layout of a field covers the fields below it.** -/
theorem covers_layout : ∀ (tree : TypeTree) (column : Nat) (path : String), tree.Authorable →
    (layout column tree).covers path tree = .ok ()
  | .leaf .., column, path, _ => by rw [Layout.covers]
  | .composite field members, column, path, ht => by
    rw [Layout.covers, layout]
    exact coversAll_layouts members _ path ht.2.2.2 fun member hm =>
      find?_layouts ht.2.1.nodup column hm

theorem coversAll_layouts : ∀ (members : List TypeTree) (label : Layout) (path : String),
    TypeTree.AuthorableAll members →
    (∀ member ∈ members, ∃ first, label.member? member.name = some (layout first member)) →
    label.coversAll path members = .ok ()
  | [], label, path, _, _ => by rw [Layout.coversAll]
  | member :: rest, label, path, ht, h => by
    obtain ⟨first, hfirst⟩ := h member (List.mem_cons_self ..)
    rw [Layout.coversAll, hfirst]
    simp only [covers_layout member first _ ht.1, bind, Except.bind]
    exact coversAll_layouts rest label path ht.2 fun other ho =>
      h other (List.mem_cons_of_mem _ ho)

end

end Authored

end TableExport
