import TableExport.Proofs.Table.Columns

/-!
# Cells at fault

When the records of a table cannot be read, a cell of the sheet is at fault
(`Extraction.readTable_eq_error`). The header, too, only fails for a date when a cell cannot be
shown. So a sheet whose cells can all be shown has no such failure (`extractTable_ne_overflow`).
-/

namespace TableExport

namespace Extraction

variable {α ε : Type} {coerce : ScalarType → Cell → Except ε α} {sheet : Sheet} {e : ε}

/-- Some cell of a sheet cannot be read as some type, with an error. -/
def AtFault (coerce : ScalarType → Cell → Except ε α) (sheet : Sheet) (e : ε) : Prop :=
  ∃ row column cell type, sheet.get? row column = some cell ∧ coerce type cell = .error e

theorem exists_of_mem_columnCells {column row count : Nat} {cell : Cell}
    (h : cell ∈ columnCells sheet column row count) : ∃ at_, sheet.get? at_ column = some cell := by
  induction count generalizing row with
  | zero => cases h
  | succ count ih =>
    rw [columnCells] at h
    split at h
    · rename_i found hfound
      rcases List.mem_cons.1 h with rfl | h
      · exact ⟨row, (Option.filter_eq_some_iff.1 hfound).1⟩
      · exact ih h
    · exact ih h

theorem readLeaf_eq_error {field : Field} {type : ScalarType} {column start stop : Nat}
    (h : readLeaf coerce sheet field type column start stop = .error e) :
    AtFault coerce sheet e := by
  rw [readLeaf] at h
  split_ifs at h
  · rcases bind_eq_error.1 h with hcells | ⟨_, -, h⟩
    · obtain ⟨cell, hcell, hfails⟩ := exists_of_mapM_eq_error hcells
      obtain ⟨row, hrow⟩ := exists_of_mem_columnCells hcell
      exact ⟨row, column, cell, type, hrow, hfails⟩
    · cases h
  · split at h
    · rename_i cell hcell
      exact ⟨start, column, cell, type, (Option.filter_eq_some_iff.1 hcell).1, map_eq_error.1 h⟩
    · cases h

/-- A failure among records is that of one record. -/
theorem collect_eq_error {isBlank : Nat → Bool}
    {read : Nat → Except ε (Entries (Extracted α) × Nat)} {row stop : Nat}
    (h : collect isBlank read row stop = .error e) : ∃ start, read start = .error e := by
  fun_induction collect isBlank read row stop with
  | case1 => cases h
  | case2 row _ _ ih => exact ih h
  | case3 row _ _ ih =>
    rcases bind_eq_error.1 h with hread | ⟨record, -, h⟩
    · exact ⟨row, hread⟩
    · rcases bind_eq_error.1 h with hrest | ⟨_, -, h⟩
      · exact ih record.2 hrest
      · cases h

/-- A failure among fields is that of one field. -/
theorem readFields_eq_error {type : TypeTree} {labels : List Layout} {start stop : Nat}
    {fields : Entries (Extracted α)}
    (h : readFields coerce sheet type labels start stop fields = .error e) :
    ∃ label ∈ labels, ∃ member, readField coerce sheet member label start stop = .error e := by
  induction labels generalizing fields with
  | nil =>
    rw [readFields] at h
    cases h
  | cons label labels ih =>
    have hrest : ∀ {fields : Entries (Extracted α)},
        readFields coerce sheet type labels start stop fields = .error e →
        ∃ inner ∈ label :: labels, ∃ member,
          readField coerce sheet member inner start stop = .error e := by
      intro fields hrest
      obtain ⟨inner, hinner, hfails⟩ := ih hrest
      exact ⟨inner, List.mem_cons_of_mem _ hinner, hfails⟩
    cases hmember : type.member? label.name with
    | none =>
      rw [readFields_cons_of_none hmember] at h
      exact hrest h
    | some member =>
      rw [readFields_cons hmember] at h
      rcases bind_eq_error.1 h with hfield | ⟨_, -, h⟩
      · exact ⟨label, List.mem_cons_self, member, hfield⟩
      · exact hrest h

/-- A cell is at fault when a record cannot be read. -/
theorem readRecord_eq_error (layout : Layout) : ∀ {type : TypeTree} {start stop : Nat},
    readRecord coerce sheet type layout start stop = .error e → AtFault coerce sheet e := by
  induction layout using Layout.induction with
  | step layout ih =>
    intro type start stop h
    rw [readRecord_eq] at h
    obtain ⟨label, hlabel, member, h⟩ := readFields_eq_error (map_eq_error.1 h)
    cases member with
    | leaf field scalar => exact readLeaf_eq_error h
    | composite field members =>
      rw [readField] at h
      split_ifs at h
      · obtain ⟨row, h⟩ := collect_eq_error (map_eq_error.1 h)
        exact ih label hlabel h
      · exact ih label hlabel (map_eq_error.1 h)

/-- **A cell is at fault** when the records of a table cannot be read. -/
theorem readTable_eq_error {type : TypeTree} {layout : Layout} {headerRows : Nat}
    (h : readTable coerce sheet type layout headerRows = .error e) : AtFault coerce sheet e :=
  have ⟨_, hrow⟩ := collect_eq_error h
  readRecord_eq_error layout hrow

end Extraction

/-! ## Dates that cannot be shown -/

variable {sheet : Sheet}

/-- All cells of a sheet can be shown. -/
def Sheet.Shows (sheet : Sheet) : Prop :=
  ∀ row column cell, sheet.get? row column = some cell → ∃ text, cell.display = .ok text

theorem Sheet.Shows.text (h : sheet.Shows) (row column : Nat) :
    ∃ text, sheet.text row column = .ok text := by
  rw [Sheet.text]
  split
  · rename_i cell hcell
    obtain ⟨text, htext⟩ := h row column cell hcell
    rw [htext]
    split_ifs
    · exact ⟨_, rfl⟩
    · exact ⟨_, rfl⟩
  · exact ⟨_, rfl⟩

namespace HeaderScan

theorem exists_labelAt (h : sheet.Shows) (scan : HeaderScan) (name : String) (row column : Nat) :
    ∃ label, labelAt sheet scan name row column = .ok label := by
  have hend : ∀ (count last column : Nat), ∃ stop,
      endBefore sheet row last column count = .ok stop := by
    intro count
    induction count with
    | zero => exact fun last column => ⟨last, rfl⟩
    | succ count ih =>
      intro last column
      obtain ⟨text, htext⟩ := h.text row column
      rw [endBefore, htext]
      simp only [bind, Except.bind]
      split_ifs
      · exact ih last (column + 1)
      · exact ⟨_, rfl⟩
  obtain ⟨stop, hstop⟩ := hend (scan.top.last - column) scan.top.last (column + 1)
  simp only [labelAt, hstop]
  exact ⟨_, rfl⟩

/-- Scanning a header does not fail for a date. -/
theorem step_ne_overflow (h : sheet.Shows) (headerRows : Nat) (scan : HeaderScan)
    (position : Nat × Nat) (cause : DayOverflow) :
    step sheet headerRows scan position ≠ .error (.overflow cause) := by
  obtain ⟨row, column⟩ := position
  obtain ⟨name, hname⟩ := h.text row column
  have hlabel : ∀ (scan : HeaderScan) (place : Layout → HeaderScan),
      (do return place (← (labelAt sheet scan name row column).mapError .overflow)) ≠
        (.error (.overflow cause) : Except TableError HeaderScan) := by
    intro scan place
    obtain ⟨label, hlabel⟩ := exists_labelAt h scan name row column
    rw [hlabel]
    rintro ⟨⟩
  simp only [step, hname, Except.mapError, bind, Except.bind]
  split_ifs
  · rintro ⟨⟩
  · split
    · rintro ⟨⟩
    · exact hlabel scan _
    · exact hlabel scan _
    · exact hlabel _ _
    · exact hlabel _ _

/-- A failure of a scan is that of one of its steps. -/
theorem foldlM_ne_overflow (h : sheet.Shows) (headerRows : Nat) (positions : List (Nat × Nat))
    (scan : HeaderScan) (cause : DayOverflow) :
    positions.foldlM (step sheet headerRows) scan ≠ .error (.overflow cause) := by
  induction positions generalizing scan with
  | nil => rintro ⟨⟩
  | cons position rest ih =>
    intro hfails
    rw [List.foldlM_cons] at hfails
    rcases bind_eq_error.1 hfails with hstep | ⟨next, -, hrest⟩
    · exact step_ne_overflow h headerRows scan position cause hstep
    · exact ih next hrest

end HeaderScan

namespace Layout

theorem ofSheet_ne_overflow (h : sheet.Shows) (headerRows : Nat) (cause : DayOverflow) :
    ofSheet sheet headerRows ≠ .error (.overflow cause) := by
  intro hfails
  rcases bind_eq_error.1 hfails with hscan | ⟨_, -, hroot⟩
  · exact HeaderScan.foldlM_ne_overflow h headerRows _ _ cause hscan
  · cases hroot

mutual

theorem covers_ne_overflow (layout : Layout) (path : String) (cause : DayOverflow) :
    ∀ type, layout.covers path type ≠ .error (.overflow cause)
  | .leaf .. => by
    rw [covers]
    rintro ⟨⟩
  | .composite _ members => by
    rw [covers]
    exact coversAll_ne_overflow layout path cause members

theorem coversAll_ne_overflow (layout : Layout) (path : String) (cause : DayOverflow) :
    ∀ members, layout.coversAll path members ≠ .error (.overflow cause)
  | [] => by
    rw [coversAll]
    rintro ⟨⟩
  | member :: rest => by
    rw [coversAll]
    cases layout.member? member.name with
    | none => rintro ⟨⟩
    | some label =>
      intro hfails
      rcases bind_eq_error.1 hfails with hmember | ⟨_, -, hrest⟩
      · exact covers_ne_overflow label _ cause member hmember
      · exact coversAll_ne_overflow layout path cause rest hrest

end

end Layout

/-- Only the text of a cell needs its date. -/
theorem coerceIn_ne_overflow {cell : Cell} {text : String} (h : cell.display = .ok text)
    (type : ScalarType) (cause : DayOverflow) :
    coerceIn sheet type cell ≠ .error (.overflow cause) := by
  rw [coerceIn, Cell.coerce.eq_def]
  split_ifs
  · rintro ⟨⟩
  · cases type with
    | string => rw [h]; rintro ⟨⟩
    | integer => cases cell.toInteger <;> rintro ⟨⟩
    | number => cases cell.toNumber <;> rintro ⟨⟩
    | boolean => cases cell.toBoolean <;> rintro ⟨⟩

/-- **A table whose cells can be shown does not fail for a date.** -/
theorem extractTable_ne_overflow (h : sheet.Shows) (type : TypeTree) (cause : DayOverflow) :
    extractTable sheet type ≠ .error (.overflow cause) := by
  intro hfails
  rcases bind_eq_error.1 hfails with hlayout | ⟨layout, -, hfails⟩
  · exact Layout.ofSheet_ne_overflow h _ cause hlayout
  · rcases bind_eq_error.1 hfails with hcovers | ⟨_, -, hread⟩
    · exact layout.covers_ne_overflow "" cause type hcovers
    · obtain ⟨row, column, cell, scalar, hcell, hfault⟩ := Extraction.readTable_eq_error hread
      obtain ⟨text, htext⟩ := h row column cell hcell
      exact coerceIn_ne_overflow htext scalar cause hfault

end TableExport
