import TableExport.Proofs.Table.Coerced
import TableExport.Proofs.Table.HeaderImage

/-!
# Skipped levels

Above the final row, a label may lie at most one row below the label before it. A header is scanned
into a layout exactly if its labels keep to this, and otherwise the scan fails at the first label
that does not (`Layout.ofSheet_levels`). Labels of the final row never matter.

The invariant of the scan is that the innermost open label is the last one above the final row, so
that the number of open labels tells its row (`HeaderScan.foldlM_levels`).
-/

namespace TableExport

/-! ## The labels before a skipped level -/

namespace HeaderLabel

/-- No label of a list lies more than one row below the one before it; before the first one comes
a row. -/
def NoSkip (row : Nat) (labels : List HeaderLabel) : Prop :=
  (row :: labels.map HeaderLabel.row).IsChain fun row next => next ≤ row + 1

/-- The row of the last label of a list, or the one before its first. -/
def lastRow (row : Nat) (labels : List HeaderLabel) : Nat :=
  (labels.map HeaderLabel.row).getLast?.getD row

/-- The first label of a list that lies more than one row below the one before it, with the row of
that one. -/
def firstSkip? (row : Nat) : List HeaderLabel → Option (HeaderLabel × Nat)
  | [] => none
  | label :: rest => if row + 1 < label.row then some (label, row) else firstSkip? label.row rest

/-- The labels above the final row. -/
def above (headerRows : Nat) (labels : List HeaderLabel) : List HeaderLabel :=
  labels.filter (·.row < headerRows)

variable {row : Nat} {label : HeaderLabel} {labels : List HeaderLabel}

@[simp] theorem noSkip_cons :
    NoSkip row (label :: labels) ↔ label.row ≤ row + 1 ∧ NoSkip label.row labels := by
  simp [NoSkip]

theorem lastRow_cons (row : Nat) (label : HeaderLabel) (labels : List HeaderLabel) :
    lastRow row (label :: labels) = lastRow label.row labels := by
  rw [lastRow, lastRow, List.map_cons, List.getLast?_cons, Option.getD_some]

theorem firstSkip?_eq_none : firstSkip? row labels = none ↔ NoSkip row labels := by
  induction labels generalizing row with
  | nil => simp [firstSkip?, NoSkip]
  | cons first rest ih =>
    rw [firstSkip?, noSkip_cons, ← ih]
    split_ifs with hskip
    · simp only [false_iff, not_and]
      omega
    · exact (and_iff_right (by omega)).symm

theorem firstSkip?_eq_some {depth : Nat} (h : firstSkip? row labels = some (label, depth)) :
    ∃ before after, labels = before ++ label :: after ∧ NoSkip row before ∧
      depth = lastRow row before ∧ depth + 1 < label.row := by
  induction labels generalizing row with
  | nil => cases h
  | cons first rest ih =>
    rw [firstSkip?] at h
    split_ifs at h with hskip
    · cases h
      exact ⟨[], rest, rfl, List.isChain_singleton _, rfl, hskip⟩
    · obtain ⟨before, after, rfl, hbefore, hdepth, hlt⟩ := ih h
      refine ⟨first :: before, after, rfl, noSkip_cons.2 ⟨by omega, hbefore⟩, ?_, hlt⟩
      rw [lastRow_cons, hdepth]

end HeaderLabel

/-! ## Headers whose texts can be shown -/

namespace Sheet

variable {sheet : Sheet} {positions : List (Nat × Nat)} {labels : List HeaderLabel}

theorem exists_text_of_labelsAt (h : sheet.labelsAt positions = .ok labels) :
    ∀ position ∈ positions, ∃ name, sheet.text position.1 position.2 = .ok name := by
  induction positions generalizing labels with
  | nil => exact nofun
  | cons first others ih =>
    obtain ⟨name, rest, hname, hrest, -⟩ := labelsAt_cons_eq_ok h
    exact List.forall_mem_cons.2 ⟨⟨name, hname⟩, ih hrest⟩

end Sheet

/-! ## The scan -/

namespace HeaderScan

open HeaderLabel

variable {sheet : Sheet} {headerRows row column : Nat} {name : String} {scan : HeaderScan}

/-- The end of a label is found among columns whose texts can be shown. -/
theorem exists_endBefore {last count : Nat}
    (hshow : ∀ other, column ≤ other → other ≤ last → ∃ name, sheet.text row other = .ok name)
    (hcount : column + count ≤ last + 1 ∨ count = 0) :
    ∃ stop ≤ last, endBefore sheet row last column count = .ok stop := by
  induction count generalizing column with
  | zero => exact ⟨last, le_rfl, rfl⟩
  | succ count ih =>
    obtain ⟨name, hname⟩ := hshow column le_rfl (by omega)
    simp only [endBefore, hname, bind, Except.bind]
    split_ifs
    · exact ih (fun other h₁ h₂ => hshow other (by omega) h₂) (by omega)
    · exact ⟨column - 1, by omega, rfl⟩

/-- All open labels end within the sheet. -/
def Within (sheet : Sheet) (scan : HeaderScan) : Prop :=
  ∀ heading ∈ scan.headings, heading.last ≤ sheet.maxColumn

theorem Within.upTo (h : Within sheet scan) (depth : Nat) : Within sheet (scan.upTo depth) :=
  fun heading hheading => h heading ((headings_close _ scan).subset hheading)

/-- Under an open label that ends within the sheet, a label can be read. -/
theorem Within.exists_labelAt (h : Within sheet scan)
    (hshow : ∀ other, 0 < other → other ≤ sheet.maxColumn →
      ∃ name, sheet.text row other = .ok name) (name : String) (column : Nat) :
    ∃ label, labelAt sheet scan name row column = .ok label ∧ label.last ≤ sheet.maxColumn := by
  have htop : scan.top.last ≤ sheet.maxColumn := h scan.top.heading List.mem_cons_self
  obtain ⟨stop, hstop, hend⟩ : ∃ stop ≤ scan.top.last,
      endBefore sheet row scan.top.last (column + 1) (scan.top.last - column) = .ok stop :=
    exists_endBefore (fun other h₁ h₂ => hshow other (by omega) (h₂.trans htop)) (by omega)
  refine ⟨⟨name, column, stop, []⟩, ?_, hstop.trans htop⟩
  rw [labelAt, hend]
  rfl

/-- A label of the final row changes neither the number nor the columns of the open ones. -/
theorem exists_step_of_final (hwithin : Within sheet scan) (hrow : 0 < headerRows)
    (hshow : ∀ other, 0 < other → other ≤ sheet.maxColumn →
      ∃ name, sheet.text headerRows other = .ok name)
    (htext : sheet.text headerRows column = .ok name) (hname : name ≠ "") :
    ∃ scan', step sheet headerRows scan (headerRows, column) = .ok scan' ∧
      scan'.size = scan.size ∧ Within sheet scan' := by
  obtain ⟨label, hlabel, -⟩ := hwithin.exists_labelAt hshow name column
  refine ⟨scan.attach label, ?_, rfl, hwithin⟩
  rw [step_of_label hrow htext hname, if_pos rfl, hlabel]
  rfl

/-- A label above the final row that skips no level is the innermost open one afterwards. -/
theorem exists_step_of_le (hwithin : Within sheet scan) (hrow : 0 < row) (hlt : row < headerRows)
    (hsize : row ≤ scan.size)
    (hshow : ∀ other, 0 < other → other ≤ sheet.maxColumn →
      ∃ name, sheet.text row other = .ok name)
    (htext : sheet.text row column = .ok name) (hname : name ≠ "") :
    ∃ scan', step sheet headerRows scan (row, column) = .ok scan' ∧
      scan'.size = row + 1 ∧ Within sheet scan' := by
  obtain ⟨label, hlabel, hlast⟩ := (hwithin.upTo row).exists_labelAt hshow name column
  refine ⟨(scan.upTo row).descend label, ?_, ?_, List.forall_mem_cons.2 ⟨hlast, hwithin.upTo row⟩⟩
  · rw [step_of_label hrow htext hname, if_neg hlt.ne, if_neg (by omega), hlabel]
    rfl
  · rw [size_descend, size_upTo hrow hsize]

/-- **A scan goes on to the first skipped level.** The labels above the final row are compared with
the row of the innermost open label. -/
theorem foldlM_levels
    (hshow : ∀ row column, 0 < row → row ≤ headerRows → 0 < column → column ≤ sheet.maxColumn →
      ∃ name, sheet.text row column = .ok name)
    {positions : List (Nat × Nat)}
    (hrows : ∀ position ∈ positions, 0 < position.1 ∧ position.1 ≤ headerRows)
    {labels : List HeaderLabel} (hlabels : sheet.labelsAt positions = .ok labels)
    (hwithin : Within sheet scan) :
    match firstSkip? (scan.size - 1) (above headerRows labels) with
    | none => ∃ scan', positions.foldlM (step sheet headerRows) scan = .ok scan'
    | some (label, depth) => positions.foldlM (step sheet headerRows) scan =
        .error (.headerDepth label.row label.column depth) := by
  induction positions generalizing scan labels with
  | nil =>
    cases hlabels
    exact ⟨scan, rfl⟩
  | cons position positions ih =>
    obtain ⟨row, column⟩ := position
    obtain ⟨⟨hrow, hle⟩, hrows⟩ := List.forall_mem_cons.1 hrows
    obtain ⟨name, rest, htext, hrest, rfl⟩ := Sheet.labelsAt_cons_eq_ok hlabels
    have hcolumns : ∀ other, 0 < other → other ≤ sheet.maxColumn →
        ∃ name, sheet.text row other = .ok name := fun other => hshow row other hrow hle
    have hgoOn : ∀ {scan'}, step sheet headerRows scan (row, column) = .ok scan' →
        ((row, column) :: positions).foldlM (step sheet headerRows) scan =
          positions.foldlM (step sheet headerRows) scan' := by
      intro scan' hstep
      rw [List.foldlM_cons, hstep]
      rfl
    by_cases hname : name = ""
    · subst hname
      rw [hgoOn (step_of_blank htext)]
      exact ih hrows hrest hwithin
    rw [if_neg (by simpa [String.isEmpty_iff] using hname), List.singleton_append, above,
      List.filter_cons]
    rcases hle.eq_or_lt with rfl | hlt
    · obtain ⟨scan', hstep, hsize, hwithin'⟩ :=
        exists_step_of_final hwithin hrow hcolumns htext hname
      rw [if_neg (by simp), hgoOn hstep, ← hsize]
      exact ih hrows hrest hwithin'
    · rw [if_pos (by simpa using hlt), firstSkip?, Nat.sub_add_cancel scan.size_pos]
      split_ifs with hskip
      · rw [List.foldlM_cons, step_of_label hrow htext hname, if_neg hlt.ne, if_pos hskip]
        rfl
      · obtain ⟨scan', hstep, hsize, hwithin'⟩ :=
          exists_step_of_le hwithin hrow hlt (Nat.le_of_not_lt hskip) hcolumns htext hname
        have hih := ih hrows hrest hwithin'
        rw [hsize, Nat.add_sub_cancel] at hih
        rw [hgoOn hstep]
        exact hih

end HeaderScan

namespace Layout

open HeaderLabel

/-- **Exactly the headers without a skipped level are scanned.** If all texts of a header can be
shown, the header has a layout exactly if no label above the final row lies more than one row below
the label before it. Otherwise the first label that does so is named, with its row and with the row
of the label before it. -/
theorem ofSheet_levels {sheet : Sheet} {headerRows : Nat} {labels : List HeaderLabel}
    (hlabels : sheet.headerLabels headerRows = .ok labels) :
    ((∃ layout, ofSheet sheet headerRows = .ok layout) ↔ NoSkip 0 (above headerRows labels)) ∧
      (¬ NoSkip 0 (above headerRows labels) → ∃ before label after,
        above headerRows labels = before ++ label :: after ∧
        NoSkip 0 before ∧ lastRow 0 before + 1 < label.row ∧
        ofSheet sheet headerRows =
          .error (.headerDepth label.row label.column (lastRow 0 before))) := by
  have hshow : ∀ row column, 0 < row → row ≤ headerRows → 0 < column → column ≤ sheet.maxColumn →
      ∃ name, sheet.text row column = .ok name := fun row column h₁ h₂ h₃ h₄ =>
    Sheet.exists_text_of_labelsAt hlabels (row, column)
      (Authored.mem_headerPositions.2 ⟨⟨h₁, h₂⟩, h₃, h₄⟩)
  have hscan := @HeaderScan.foldlM_levels sheet headerRows
    ⟨⟨TypeTree.rootName, 1, sheet.maxColumn, []⟩, []⟩ hshow _
    (fun position hposition => (Authored.mem_headerPositions.1 hposition).1) _ hlabels
    (List.forall_mem_singleton.2 le_rfl)
  simp only [HeaderScan.size, List.length_nil, Nat.zero_add, Nat.sub_self] at hscan
  rw [← firstSkip?_eq_none, ofSheet]
  cases hskip : firstSkip? 0 (above headerRows labels) with
  | none =>
    simp only [hskip] at hscan
    obtain ⟨scan, hscan⟩ := hscan
    simp [hscan, bind, Except.bind, pure, Except.pure]
  | some found =>
    obtain ⟨label, depth⟩ := found
    obtain ⟨before, after, hsplit, hbefore, rfl, hlt⟩ := firstSkip?_eq_some hskip
    simp only [hskip] at hscan
    rw [hscan]
    refine ⟨?_, fun _ => ⟨before, label, after, hsplit, hbefore, hlt, rfl⟩⟩
    simp [bind, Except.bind]

end Layout

/-! ## Examples -/

namespace Stock

open HeaderLabel

/-- A header of four rows whose second column starts two rows too deep; the labels of the final row
are no reason. -/
def skippedHeader : List Cell :=
  [cell 1 1 "item", cell 4 1 "code", cell 3 2 "outer", cell 4 2 "width"]

/-- The header `deepHeader` skips no level, though its last column goes from row 1 to row 4. In the
header `skippedHeader` the label in cell B3 skips one. -/
theorem ofSheet_skippedHeader :
    (∃ layout, Layout.ofSheet (Sheet.ofCells "stock.xlsx" "Stock" deepHeader) 4 = .ok layout) ∧
    Layout.ofSheet (Sheet.ofCells "stock.xlsx" "Stock" skippedHeader) 4 =
      .error (.headerDepth 3 2 1) := by
  have hdeep : (Sheet.ofCells "stock.xlsx" "Stock" deepHeader).headerLabels 4 =
      .ok [⟨1, 1, "item"⟩, ⟨2, 1, "size"⟩, ⟨3, 1, "outer"⟩, ⟨4, 1, "width"⟩, ⟨4, 2, "depth"⟩,
        ⟨1, 3, "note"⟩, ⟨4, 3, "text"⟩] := by cbv
  have hskipped : (Sheet.ofCells "stock.xlsx" "Stock" skippedHeader).headerLabels 4 =
      .ok [⟨1, 1, "item"⟩, ⟨4, 1, "code"⟩, ⟨3, 2, "outer"⟩, ⟨4, 2, "width"⟩] := by cbv
  refine ⟨(Layout.ofSheet_levels hdeep).1.2 (by simp [above, NoSkip]), ?_⟩
  obtain ⟨before, label, after, hsplit, hbefore, hlt, herror⟩ :=
    (Layout.ofSheet_levels hskipped).2 (by simp [above, NoSkip])
  -- only the label in cell B3 skips a level
  have hlabels : [⟨1, 1, "item"⟩, ⟨3, 2, "outer"⟩] = before ++ label :: after := by
    simpa [above] using hsplit
  rcases before with _ | ⟨item, _ | ⟨outer, before⟩⟩
  · cases hlabels
    simp [lastRow] at hlt
  · cases hlabels
    exact herror
  · simp at hlabels

/-- **A date in a header that is beyond the day arithmetic ends the scan:** no label above the final
row skips a level, yet the header has no layout. -/
theorem ofSheet_daysSheet :
    (∃ layout, Layout.ofSheet (Sheet.ofCells "stock.xlsx" "Stock" [cell 1 1 "day"]) 2 =
      .ok layout) ∧
    daysSheet.headerLabels 1 = .ok [⟨1, 1, "day"⟩] ∧ NoSkip 0 [⟨1, 1, "day"⟩] ∧
    Layout.ofSheet daysSheet 2 = .error (.overflow ⟨1000000000000000⟩) ∧
    (∀ layout, Layout.ofSheet daysSheet 2 ≠ .ok layout) ∧
    ∀ row column depth, Layout.ofSheet daysSheet 2 ≠ .error (.headerDepth row column depth) := by
  have hfar : farDate.display = .error ⟨1000000000000000⟩ := by decide +kernel
  have htext : daysSheet.text 2 1 = .error ⟨1000000000000000⟩ := by
    have hget : daysSheet.get? 2 1 = some farDate := by cbv
    have hblank : farDate.isBlank = false := by cbv
    simp [Sheet.text, hget, hblank, hfar, Except.map]
  have hfirst : HeaderScan.step daysSheet 2 ⟨⟨TypeTree.rootName, 1, 1, []⟩, []⟩ (1, 1) =
      .ok ⟨label "day" 1, [⟨TypeTree.rootName, 1, 1, []⟩]⟩ := by cbv
  have hpositions : Layout.headerPositions daysSheet.maxColumn 2 = [(1, 1), (2, 1)] := by cbv
  have hcolumn : daysSheet.maxColumn = 1 := by cbv
  have h : Layout.ofSheet daysSheet 2 = .error (.overflow ⟨1000000000000000⟩) := by
    rw [Layout.ofSheet, hpositions, List.foldlM_cons, hcolumn, hfirst]
    simp [HeaderScan.step, htext, Except.mapError, bind, Except.bind]
  have hlayout : Layout.ofSheet (Sheet.ofCells "stock.xlsx" "Stock" [cell 1 1 "day"]) 2 =
      .ok ⟨TypeTree.rootName, 1, 1, [label "day" 1]⟩ := by cbv
  refine ⟨⟨_, hlayout⟩, by cbv, by simp [NoSkip], h, ?_, ?_⟩ <;> simp [h]

end Stock

end TableExport
