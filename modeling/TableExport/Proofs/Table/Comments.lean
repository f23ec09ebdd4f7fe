import TableExport.Proofs.Table.Boundaries
import TableExport.Proofs.Table.Ranges

/-!
# Columns of comments

A column that is not the first one of a field's label is never read. It is still looked at: a row
counts as blank only if all columns of a label are. So a comment may have a record of an array start
in a row in which none of its fields has a value (`Clear`), and what the next rows hold is then read
as a part of that record.

What is read stays the same as long as the single-valued records below it are still found. One that
has its first value below the first row of the record around it is not. Where each of them has its
values in rows in which the record around it has one, too (`Anchored`), rows without values may be
put before a record and change nothing.

* `readRecord_skip`, `readRecords_skip`: rows without values before the first ones.
* `extractTable_of_comments`: sheets that differ in comments only are read as the same records.
-/

namespace TableExport

namespace Extraction

open Layout

variable {α ε : Type} {sheet other : Sheet} {type member : TypeTree} {layout label : Layout}
  {row start next stop : Nat}

/-! ## Rows without values -/

/-- No field below a layout has a value in a row. -/
def Clear (sheet : Sheet) (type : TypeTree) (layout : Layout) (row : Nat) : Prop :=
  ∀ column, FieldColumn type layout column → sheet.isBlank row column = true

/-- Below a layout, a single-valued record that has a value in a row lies in one that has. -/
def Anchored (sheet : Sheet) (type : TypeTree) (layout : Layout) (row : Nat) : Prop :=
  Throughout (fun outer around label member => member.isArray = false →
    Starts sheet member label.members row → Starts sheet outer around.members row) type layout

/-- What lies below a layout has its columns within those of its label. -/
def Nested (type : TypeTree) (layout : Layout) : Prop :=
  ∀ inner label column, Reaches type layout inner label → FieldColumn inner label column →
    label.first ≤ column ∧ column ≤ label.last

theorem Clear.below (h : Clear sheet type layout row)
    (hmatched : Matched type layout label member) :
    Clear sheet member label row := fun column hcolumn => h column (hcolumn.below hmatched)

theorem Anchored.of_reaches (h : Anchored sheet type layout row)
    (hreach : Reaches type layout member label) : Anchored sheet member label row :=
  Throughout.of_reaches h hreach

theorem Nested.of_reaches (h : Nested type layout) (hreach : Reaches type layout member label) :
    Nested member label :=
  fun inner label column hinner => h inner label column (hreach.trans hinner)

/-- The layout of a header is nested. -/
theorem nested_of_spansAll (h : SpansAll layout.first stop layout.members)
    (hstop : stop ≤ layout.last + 1) : Nested type layout := by
  intro inner label column hreach hcolumn
  obtain ⟨stop', hspans, -, -, hlast⟩ := hreach.spansAll h hstop
  have := hcolumn.mem_range hspans hlast
  omega

theorem Clear.not_starts (h : Clear sheet type layout row) :
    ¬ Starts sheet type layout.members row := by
  rw [starts_iff]
  rintro ⟨label, member, hmatched, -, hfilled⟩
  rw [h _ hmatched.fieldColumn] at hfilled
  cases hfilled

/-- A row in which a field has a value is not blank. -/
theorem isBlankRow_of_not_clear (hnested : Nested type layout) (h : ¬ Clear sheet type layout row) :
    sheet.isBlankRow row layout.first layout.last = false := by
  by_contra hblank
  rw [Bool.not_eq_false, Sheet.isBlankRow_eq_true] at hblank
  refine h fun column hcolumn => ?_
  obtain ⟨hfirst, hlast⟩ := hnested _ _ column (.refl _ _) hcolumn
  exact hblank column hfirst hlast

variable {coerce : ScalarType → Cell → Except ε α}

/-- Records without fields are left out. -/
theorem collect_of_no_fields {row : Nat} {isBlank : Nat → Bool}
    {read : Nat → Except ε (Entries (Extracted α) × Nat)}
    (h : ∀ other, row ≤ other → other ≤ stop → read other = .ok ([], stop)) :
    collect isBlank read row stop = .ok [] := by
  by_cases hlt : stop < row
  · exact collect_of_lt hlt
  · have hrow : row ≤ stop := Nat.le_of_not_lt hlt
    cases hblank : isBlank row with
    | true =>
      rw [collect_of_isBlank hrow hblank]
      exact collect_of_no_fields fun other h₁ h₂ => h other (Nat.le_of_succ_le h₁) h₂
    | false =>
      rw [collect_of_filled hrow hblank, h row (le_refl _) hrow]
      simp only [bind, Except.bind]
      rw [collect_of_lt (by omega)]
      rfl
termination_by stop + 1 - row

/-- Rows without values make up one record without fields. -/
theorem readRecord_of_clear (layout : Layout) : ∀ {type : TypeTree} {start stop : Nat},
    start ≤ stop → (∀ row, start ≤ row → row ≤ stop → Clear sheet type layout row) →
    readRecord coerce sheet type layout start stop = .ok ([], stop) := by
  induction layout using Layout.induction with
  | step layout ih =>
    intro type start stop hle hclear
    have hend : recordEnd sheet type layout.members start stop = stop :=
      recordEnd_eq ⟨hle, le_refl stop⟩ (fun row h₁ h₂ => (hclear row h₁.le h₂).not_starts)
        fun hlt => absurd hlt (lt_irrefl stop)
    rw [readRecord_eq, hend, readFields_of_none]
    · rfl
    intro label hmem member hmember
    have hmatched : Matched type layout label member := ⟨hmem, hmember⟩
    have hblank : ∀ row, start ≤ row → row ≤ stop → sheet.isBlank row label.first = true :=
      fun row h₁ h₂ => hclear row h₁ h₂ _ hmatched.fieldColumn
    have hbelow : ∀ row, start ≤ row → row ≤ stop → Clear sheet member label row :=
      fun row h₁ h₂ => (hclear row h₁ h₂).below hmatched
    cases member with
    | leaf field scalar =>
      rw [readField, readLeaf, columnCells_of_blank fun row h₁ h₂ => hblank row h₁ (by omega),
        Sheet.filter_get?_of_isBlank (hblank start (le_refl _) hle)]
      split <;> rfl
    | composite field members =>
      rw [readField_composite, ih label hmem hle hbelow, readRecords, collect_of_no_fields]
      · split <;> rfl
      · exact fun row h₁ h₂ => ih label hmem h₂ fun r h₃ => hbelow r (h₁.trans h₃)

/-! ## Rows without values before a record -/

/-- The record that starts in a row without values and ends before the next row with one. -/
theorem readRecord_of_clear_rows {row last : Nat} (hle : row ≤ stop)
    (hlast : recordEnd sheet type layout.members row stop = last)
    (hclear : ∀ r, row ≤ r → r ≤ last → Clear sheet type layout r) :
    readRecord coerce sheet type layout row stop = .ok ([], last) := by
  obtain ⟨hrange, -, hstarts⟩ := recordEnd_spec sheet type layout.members hle
  rw [hlast] at hrange hstarts
  rcases hrange.2.eq_or_lt with rfl | hlt
  · exact readRecord_of_clear layout hle hclear
  · rw [readRecord_of_starts (hstarts hlt) (Nat.lt_succ_of_le hrange.1) hlt]
    exact readRecord_of_clear layout hrange.1 hclear

/-- A record in rows without values is left out if it ends before the next row with one. -/
theorem readRecords_of_recordEnd_lt {row next : Nat} (hle : row ≤ stop)
    (hblank : sheet.isBlankRow row layout.first layout.last = false) (hnext : next ≤ stop + 1)
    (hclear : ∀ r, row ≤ r → r < next → Clear sheet type layout r)
    (hend : recordEnd sheet type layout.members row stop < next) :
    readRecords coerce sheet type layout row stop =
      readRecords coerce sheet type layout next stop := by
  obtain ⟨hrange, -, hstarts⟩ := recordEnd_spec sheet type layout.members hle
  generalize hlast : recordEnd sheet type layout.members row stop = last at hrange hstarts hend
  -- the next record can only start at `next`
  have hsucc : last + 1 = next := by
    by_contra hne
    exact (hclear (last + 1) (by omega) (by omega)).not_starts (hstarts (by omega))
  rw [readRecords, readRecords, collect_of_filled hle hblank,
    readRecord_of_clear_rows hle hlast fun r h₁ h₂ => hclear r h₁ (h₂.trans_lt hend)]
  simp only [bind, Except.bind, Nat.max_eq_right hrange.1, hsucc]
  cases collect _ _ next stop <;> rfl

/-- The records are the same from two rows on in which the same record starts. -/
theorem readRecords_of_readRecord_eq {row next : Nat} (hrow : row ≤ next) (hstop : next ≤ stop)
    (hblank : sheet.isBlankRow row layout.first layout.last = false)
    (hblank' : sheet.isBlankRow next layout.first layout.last = false)
    (hend : next ≤ recordEnd sheet type layout.members row stop)
    (hsame : readRecord coerce sheet type layout row stop =
      readRecord coerce sheet type layout next stop) :
    readRecords coerce sheet type layout row stop =
      readRecords coerce sheet type layout next stop := by
  have hle : row ≤ stop := hrow.trans hstop
  rw [readRecords, readRecords, collect_of_filled hle hblank, collect_of_filled hstop hblank',
    ← hsame]
  cases hread : readRecord coerce sheet type layout row stop with
  | error e => rfl
  | ok result =>
    obtain ⟨fields, last⟩ := result
    obtain ⟨rfl, -⟩ := last_of_readRecord hle hread
    simp only [bind, Except.bind]
    rw [Nat.max_eq_right (hrow.trans hend), Nat.max_eq_right hend]

/-- **Rows without values are passed over** when they may stand before a record. -/
theorem readRecords_skip {row next : Nat} (hnested : Nested type layout) (hrow : row ≤ next)
    (hnext : next ≤ stop + 1) (hclear : ∀ r, row ≤ r → r < next → Clear sheet type layout r)
    (hrecord : ∀ start next, row ≤ start → start ≤ next → next ≤ stop →
      (∀ r, start ≤ r → r < next → Clear sheet type layout r) →
      ¬ Starts sheet type layout.members next →
      readRecord coerce sheet type layout start stop =
        readRecord coerce sheet type layout next stop) :
    readRecords coerce sheet type layout row stop =
      readRecords coerce sheet type layout next stop := by
  rcases hrow.eq_or_lt with rfl | hlt
  · rfl
  have hle : row ≤ stop := by omega
  cases hblank : sheet.isBlankRow row layout.first layout.last with
  | true =>
    rw [readRecords, collect_of_isBlank hle hblank]
    exact readRecords_skip hnested hlt hnext (fun r h₁ => hclear r (Nat.le_of_succ_le h₁))
      fun start next h₁ => hrecord start next (Nat.le_of_succ_le h₁)
  | false =>
    obtain ⟨hrange, hnone, -⟩ := recordEnd_spec sheet type layout.members hle
    by_cases hend : recordEnd sheet type layout.members row stop < next
    · exact readRecords_of_recordEnd_lt hle hblank hnext hclear hend
    · rw [Nat.not_lt] at hend
      have hstop : next ≤ stop := hend.trans hrange.2
      by_cases hmore : Clear sheet type layout next
      · have hall : ∀ r, row ≤ r → r < next + 1 → Clear sheet type layout r := fun r h₁ h₂ => by
          rcases (Nat.le_of_lt_succ h₂).eq_or_lt with rfl | h₃
          · exact hmore
          · exact hclear r h₁ h₃
        rw [readRecords_skip hnested (Nat.le_succ_of_le hrow) (Nat.succ_le_succ hstop) hall hrecord,
          ← readRecords_skip hnested (Nat.le_succ next) (Nat.succ_le_succ hstop)
            (fun r h₁ => hall r (hrow.trans h₁)) fun start next h₁ =>
              hrecord start next (hrow.trans h₁)]
      · exact readRecords_of_readRecord_eq hrow hstop hblank
          (isBlankRow_of_not_clear hnested hmore) hend
          (hrecord row next (le_refl row) hrow hstop hclear (hnone next hlt hend))
termination_by (stop + 1 - row) + (stop + 1 - next)

/-- Rows without values before a record do not change where it ends. -/
theorem recordEnd_skip (hle : start ≤ next) (hstop : next ≤ stop)
    (hclear : ∀ row, start ≤ row → row < next → Clear sheet type layout row)
    (hnext : ¬ Starts sheet type layout.members next) :
    recordEnd sheet type layout.members start stop =
      recordEnd sheet type layout.members next stop := by
  refine recordEnd_congr (hle.trans hstop) hstop fun row _ => ?_
  refine ⟨?_, fun h => ⟨hle.trans_lt h.1, h.2⟩⟩
  rintro ⟨h₁, hrow⟩
  refine ⟨?_, hrow⟩
  by_contra hge
  rcases (Nat.le_of_not_lt hge).eq_or_lt with rfl | hlt
  · exact hnext hrow
  · exact (hclear row h₁.le hlt).not_starts hrow

/-- Blank cells before a leaf change nothing, as long as a single-valued one has no value in the row
in which it is read. -/
theorem readLeaf_skip {field : Field} {scalar : ScalarType} {column : Nat} (hle : start ≤ next)
    (hstop : next ≤ stop)
    (hblank : ∀ row, start ≤ row → row < next → sheet.isBlank row column = true)
    (hnone : field.isArray = false → sheet.isBlank next column = true) :
    readLeaf coerce sheet field scalar column start stop =
      readLeaf coerce sheet field scalar column next stop := by
  rw [readLeaf, readLeaf, columnCells_skip hle (by omega) hblank]
  split
  · rfl
  · rename_i hsingle
    rcases hle.eq_or_lt with rfl | hlt
    · rfl
    · rw [Sheet.filter_get?_of_isBlank (hnone (Bool.eq_false_iff.2 hsingle)),
        Sheet.filter_get?_of_isBlank (hblank start (le_refl _) hlt)]

/-- **A record may start in the rows without values before its first row**, when no single-valued
field has a value there. -/
theorem readRecord_skip (layout : Layout) : ∀ {type : TypeTree} {start next stop : Nat},
    Nested type layout → start ≤ next → next ≤ stop →
    (∀ row, start ≤ row → row ≤ stop → Anchored sheet type layout row) →
    (∀ row, start ≤ row → row < next → Clear sheet type layout row) →
    ¬ Starts sheet type layout.members next →
    readRecord coerce sheet type layout start stop =
      readRecord coerce sheet type layout next stop := by
  induction layout using Layout.induction with
  | step layout ih =>
    intro type start next stop hnested hle hstop hanchored hclear hnext
    obtain ⟨hrange, -, -⟩ := recordEnd_spec sheet type layout.members hstop
    rw [readRecord_eq, readRecord_eq, recordEnd_skip hle hstop hclear hnext]
    generalize recordEnd sheet type layout.members next stop = last at hrange
    congr 1
    refine readFields_congr (fun label hmem member hmember => ?_) []
    have hmatched : Matched type layout label member := ⟨hmem, hmember⟩
    have hbelow : ∀ row, start ≤ row → row < next → Clear sheet member label row :=
      fun row h₁ h₂ => (hclear row h₁ h₂).below hmatched
    have hanchored' : ∀ row, start ≤ row → row ≤ last → Anchored sheet member label row :=
      fun row h₁ h₂ => (hanchored row h₁ (h₂.trans hrange.2)).of_reaches hmatched.reaches
    cases member with
    | leaf field scalar =>
      refine readLeaf_skip hle hrange.1 (fun row h₁ h₂ => hclear row h₁ h₂ _ hmatched.fieldColumn)
        fun hsingle => ?_
      by_contra hfilled
      exact hnext (starts_iff.2 ⟨label, _, hmatched, hsingle, Bool.eq_false_iff.2 hfilled⟩)
    | composite field members =>
      have hnested' := hnested.of_reaches hmatched.reaches
      have hrecords : readRecords coerce sheet (.composite field members) label start last =
          readRecords coerce sheet (.composite field members) label next last :=
        readRecords_skip hnested' hle (by omega) hbelow fun start' next' h₁ h₂ h₃ hclear' =>
          ih label hmem hnested' h₂ h₃ (fun row h₄ => hanchored' row (h₁.trans h₄)) hclear'
      rw [readField_composite, readField_composite, hrecords]
      split
      · rfl
      · rename_i hsingle
        have hnot : ¬ Starts sheet (.composite field members) label.members next := fun hstarts =>
          hnext (hanchored next hle hstop type layout label _ (.refl _ _) hmatched
            (Bool.eq_false_iff.2 hsingle) hstarts)
        rw [ih label hmem hnested' hle hrange.1 hanchored' hbelow hnot]

/-- A row without values is passed over when single-valued records are anchored from there on. -/
theorem readRecords_of_clear (hnested : Nested type layout) (hrow : row ≤ stop)
    (hclear : Clear sheet type layout row)
    (hanchored : ∀ later, row ≤ later → Anchored sheet type layout later) :
    readRecords coerce sheet type layout row stop =
      readRecords coerce sheet type layout (row + 1) stop := by
  refine readRecords_skip hnested (Nat.le_succ row) (Nat.succ_le_succ hrow) (fun r h₁ h₂ => ?_)
    fun start next h₁ h₂ h₃ h₄ h₅ => readRecord_skip layout hnested h₂ h₃
      (fun r h₆ _ => hanchored r (h₁.trans h₆)) h₄ h₅
  rwa [show r = row by omega]

/-! ## Sheets that differ in comments -/

theorem clear_congr (h : ∀ column, FieldColumn type layout column →
    other.get? row column = sheet.get? row column) :
    Clear other type layout row ↔ Clear sheet type layout row := by
  refine forall₂_congr fun column hcolumn => ?_
  rw [isBlank_congr (h column hcolumn)]

theorem anchored_congr (h : ∀ column, FieldColumn type layout column →
    other.get? row column = sheet.get? row column) (hanchored : Anchored sheet type layout row) :
    Anchored other type layout row := by
  intro outer around label member hreach hmatched hsingle hstarts
  refine (starts_congr fun column hcolumn => h column (hcolumn.of_reaches hreach)).2
    (hanchored outer around label member hreach hmatched hsingle ?_)
  exact (starts_congr fun column hcolumn =>
    h column ((hcolumn.below hmatched).of_reaches hreach)).1 hstarts

/-- Sheets that differ in comments are alike when single-valued records are anchored from the first
difference on. -/
theorem alike_of_comments (hnested : Nested type layout)
    (hfields : ∀ row column, FieldColumn type layout column →
      other.get? row column = sheet.get? row column)
    (hanchored : ∀ row column, other.get? row column ≠ sheet.get? row column →
      ∀ later, row ≤ later → Anchored sheet type layout later) :
    Alike coerce other sheet type layout start stop where
  cells _ _ hcolumn := hfields _ _ hcolumn
  skips := by
    intro inner label row stop' hreach _ hle _ hne
    have hfields' : ∀ row column, FieldColumn inner label column →
        other.get? row column = sheet.get? row column := fun row column hcolumn =>
      hfields row column (hcolumn.of_reaches hreach)
    have hnested' := hnested.of_reaches hreach
    have hclear : Clear sheet inner label row := by
      by_contra hnot
      refine hne ?_
      rw [isBlankRow_of_not_clear hnested' hnot,
        isBlankRow_of_not_clear hnested' fun h => hnot ((clear_congr (hfields' row)).1 h)]
    have hlater : ∀ later, row ≤ later → Anchored sheet inner label later := by
      obtain ⟨column, hcolumn⟩ : ∃ column, other.get? row column ≠ sheet.get? row column := by
        by_contra hsame
        exact hne (isBlankRow_congr fun column => by_contra fun h => hsame ⟨column, h⟩)
      exact fun later h => (hanchored row column hcolumn later h).of_reaches hreach
    exact ⟨readRecords_of_clear hnested' hle ((clear_congr (hfields' row)).2 hclear)
        fun later h => anchored_congr (hfields' later) (hlater later h),
      readRecords_of_clear hnested' hle hclear hlater⟩

end Extraction

open Extraction

/-- **Comments are not read**: two sheets that differ in columns of no field only are read as the
same records, or fail for the same reason, if from the first difference on no single-valued record
has a value in a row in which the record around it has none. -/
theorem extractTable_of_comments {sheet other : Sheet} {type : TypeTree}
    (hfile : other.fileName = sheet.fileName) (hname : other.name = sheet.name)
    (hrows : other.maxRow = sheet.maxRow) (hcolumns : other.maxColumn = sheet.maxColumn)
    (hheader : ∀ row column, row ≤ type.maxDepth → other.get? row column = sheet.get? row column)
    (hfields : ∀ layout, Layout.ofSheet sheet type.maxDepth = .ok layout → ∀ row column,
      FieldColumn type layout column → other.get? row column = sheet.get? row column)
    (hanchored : ∀ layout, Layout.ofSheet sheet type.maxDepth = .ok layout → ∀ row column,
      other.get? row column ≠ sheet.get? row column → ∀ later, row ≤ later →
        Anchored sheet type layout later) :
    extractTable other type = extractTable sheet type := by
  have hlayout : Layout.ofSheet other type.maxDepth = Layout.ofSheet sheet type.maxDepth :=
    Layout.ofSheet_congr hcolumns fun row column _ hrow => by
      rw [Sheet.text, Sheet.text, hheader row column hrow]
  rw [extractTable, extractTable, hlayout]
  cases hsheet : Layout.ofSheet sheet type.maxDepth with
  | error e => rfl
  | ok layout =>
    have hnested : Nested type layout :=
      nested_of_spansAll (Layout.spansAll_ofSheet hsheet) (le_refl _)
    have hread : readTable (coerceIn other) other type layout type.maxDepth =
        readTable (coerceIn sheet) sheet type layout type.maxDepth := by
      rw [readTable, readTable, hrows, coerceIn_congr hfile hname]
      exact readRecords_congr
        (alike_of_comments hnested (hfields layout hsheet) (hanchored layout hsheet))
    simp only [bind, Except.bind, hread]

namespace Stock

/-- The columns of the fields are all but that of `memo`. -/
theorem ne_of_fieldColumn {column : Nat} (h : FieldColumn type layout column) : column ≠ 5 := by
  obtain ⟨outer, around, inner, member, hreach, hmatched, rfl⟩ := h
  exact forall_fields (P := fun _ _ inner _ => inner.first ≠ 5) (by decide) (by decide) (by decide)
    (by decide) (by decide) (by decide) (by decide) _ _ _ _ hreach hmatched

/-- One more cell changes its own position only. -/
theorem get?_sheet_concat (rows : List Cell) (note : Cell) (row column : Nat) :
    (sheet (rows ++ [note])).get? row column =
      if Sheet.IsAt row column note then some note else (sheet rows).get? row column := by
  rw [sheet, sheet, ← List.append_assoc, Sheet.ofCells_concat,
    Sheet.get?_push (Sheet.indexed_ofCells _ _ _)]

theorem ne_of_get?_ne {rows : List Cell} {row column : Nat} (top : Nat) (text : String)
    (h : (sheet (rows ++ [cell top 5 text])).get? row column ≠ (sheet rows).get? row column) :
    row = top ∧ column = 5 := by
  by_contra hat
  refine h ?_
  rw [get?_sheet_concat, if_neg fun hcell => hat ⟨hcell.1.symm, hcell.2.symm⟩]

/-- A note in the second row of the first item, in which no field of a piece has a value. -/
def note : Cell := cell 5 5 "sold out"

/-- From that row on the sizes of pieces are anchored: the pieces have a code. -/
theorem anchored_items {row : Nat} (h : 5 ≤ row) : Anchored (sheet items) type layout row := by
  have hleaf : ∀ {outer around name column}, (field name).isArray = false →
      Starts (sheet items) (field name) (label name column).members row →
      Starts (sheet items) outer around row := by
    rintro _ _ _ _ - ⟨_, hmem, -⟩
    cases hmem
  refine forall_fields hleaf (fun h => by cases h) hleaf ?_ hleaf hleaf (fun h => by cases h)
  rintro - ⟨inner, hmem, -, -, -, hfilled⟩
  have hcolumn : inner.first = 3 ∨ inner.first = 4 := by
    rcases List.mem_cons.1 hmem with rfl | hmem
    · exact Or.inl rfl
    · exact Or.inr (by rw [List.mem_singleton.1 hmem]; rfl)
  obtain ⟨other, hother, hrow, hat⟩ : ∃ other ∈ header ++ items,
      Sheet.IsAt row inner.first other := by
    by_contra hnone
    rw [sheet, Sheet.isBlank_of_get?_eq_none (Sheet.get?_ofCells_eq_none _ _ fun other hmem hat =>
      hnone ⟨other, hmem, hat⟩)] at hfilled
    cases hfilled
  have hrows : row = 6 ∨ row = 7 := by
    have hsizes : ∀ other ∈ header ++ items, (other.column = 3 ∨ other.column = 4) →
        5 ≤ other.row → other.row = 6 ∨ other.row = 7 := by decide
    exact hrow ▸ hsizes other hother (hat ▸ hcolumn) (hrow ▸ h)
  refine ⟨label "code" 2, List.mem_cons_self, field "code", rfl, rfl, ?_⟩
  rcases hrows with rfl | rfl
  · cbv
  · cbv

set_option maxRecDepth 10000 in
/-- A note in the second row of the first item changes nothing. -/
theorem extractTable_notedItems :
    extractTable (sheet (items ++ [note])) type = .ok [firstItem, secondItem] := by
  have hdepth : type.maxDepth = 3 := rfl
  have hlayout : Layout.ofSheet (sheet items) type.maxDepth = .ok layout := by cbv
  have hat : ∀ {row column}, (sheet (items ++ [note])).get? row column ≠
      (sheet items).get? row column → row = 5 ∧ column = 5 := ne_of_get?_ne 5 "sold out"
  have hsame : extractTable (sheet (items ++ [note])) type = extractTable (sheet items) type := by
    refine extractTable_of_comments (by cbv) (by cbv) (by cbv) (by cbv)
      (fun row column hrow => ?_) (fun other hother row column hcolumn => ?_)
      fun other hother row column hne later hlater => ?_
    · by_contra hne
      have := (hat hne).1
      omega
    · cases hlayout.symm.trans hother
      by_contra hne
      exact ne_of_fieldColumn hcolumn (hat hne).2
    · cases hlayout.symm.trans hother
      exact anchored_items ((hat hne).1 ▸ hlater)
  exact hsame.trans extractTable_items

/-- An item with a piece that has its only value below the first row of the item. -/
def lowPiece : List Cell := [cell 4 1 "a", cell 5 4 "2"]

set_option maxRecDepth 10000 in
/-- Without anchored records a note may change what is read: the piece with the note in the row
above its value starts in that row, and its size is lost. -/
theorem extractTable_lowPiece :
    ((sheet (lowPiece ++ [cell 4 5 "new"])).maxRow = (sheet lowPiece).maxRow ∧
      (sheet (lowPiece ++ [cell 4 5 "new"])).maxColumn = (sheet lowPiece).maxColumn ∧
      (∀ row column, row ≤ type.maxDepth →
        (sheet (lowPiece ++ [cell 4 5 "new"])).get? row column =
          (sheet lowPiece).get? row column) ∧
      Layout.ofSheet (sheet lowPiece) type.maxDepth = .ok layout ∧
      ∀ row column, FieldColumn type layout column →
        (sheet (lowPiece ++ [cell 4 5 "new"])).get? row column =
          (sheet lowPiece).get? row column) ∧
    extractTable (sheet lowPiece) type =
      .ok [.record [("id", value "a"),
        ("pieces", .list [.record [("size", .record [("depth", value "2")])]])]] ∧
    extractTable (sheet (lowPiece ++ [cell 4 5 "new"])) type =
      .ok [.record [("id", value "a")]] := by
  refine ⟨⟨by cbv, by cbv, fun row column hrow => ?_, by cbv, fun row column hcolumn => ?_⟩,
    extractTable_sheet 5 (by cbv) (by cbv) (by decide) (by cbv),
    extractTable_sheet 5 (by cbv) (by cbv) (by decide) (by cbv)⟩
  · by_contra hne
    have hdepth : type.maxDepth = 3 := rfl
    have := (ne_of_get?_ne 4 "new" hne).1
    omega
  · by_contra hne
    exact ne_of_fieldColumn hcolumn (ne_of_get?_ne 4 "new" hne).2

end Stock

end TableExport
