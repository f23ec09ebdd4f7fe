import TableExport.Proofs.Table.Boundaries
import TableExport.Proofs.Table.Provenance
import TableExport.Proofs.Table.Ranges

/-!
# Each cell has one place

A cell with a value in the column of a leaf is extracted to one place, or to none. A record takes
all rows up to the next one, so the rows of an array are all read. A record that is the single value
of a field, however, ends before the next row in which one of its own single-valued fields has a
value, even when the record around it goes on; what stands below is not read.

* `Opens` says where the record of an array starts that a row belongs to.
* `Kept` says that on the way down to a field no single record ends above a row.
* `accounts_readRecord`: the values of a record come from the cells of the rows that are kept.
* `extractTable_places`: each cell of a leaf has one place if its row is kept, and none otherwise.
-/

namespace TableExport

/-- The labels under each label have different names. -/
inductive Layout.Distinct : Layout → Prop
  | mk {layout : Layout} : (layout.members.map Layout.name).Nodup →
    (∀ label ∈ layout.members, Distinct label) → Distinct layout

/-- In an indexed sheet a cell is found at its own position. -/
theorem Sheet.Indexed.isAt_of_get? {sheet : Sheet} (h : sheet.Indexed) {row column : Nat}
    {cell : Cell} (hget : sheet.get? row column = some cell) : Sheet.IsAt row column cell := by
  obtain ⟨i, hi, hcell⟩ := Option.bind_eq_some_iff.1 hget
  obtain ⟨other, hother, hposition⟩ := h _ i hi
  rw [hcell] at hother
  cases hother
  exact Prod.mk.inj hposition

namespace Extraction

open Layout Extracted

/-! ## Cells of fields -/

/-- When an array is read from row `top` on, the record that a row belongs to starts in row `start`:
the last row, up to that one, in which one of its single-valued fields has a value, or else the
first row that is not blank. -/
structure Opens (sheet : Sheet) (type : TypeTree) (layout : Layout) (top row start : Nat) :
    Prop where
  top_le : top ≤ start
  le_row : start ≤ row
  filled : sheet.isBlankRow start layout.first layout.last = false
  first : Starts sheet type layout.members start ∨
    ∀ above, top ≤ above → above < start → sheet.isBlankRow above layout.first layout.last = true
  last : ∀ below, start < below → below ≤ row → ¬ Starts sheet type layout.members below

/-- From a record that starts in row `start`, the way down to the record of another type leads to
the record that a row belongs to: a single record on the way has no further value in a single-valued
field down to the row. -/
inductive Kept (sheet : Sheet) (row : Nat) : TypeTree → Layout → Nat → TypeTree → Layout → Prop
  | refl (type : TypeTree) (layout : Layout) (start : Nat) :
    Kept sheet row type layout start type layout
  | single {type outer : TypeTree} {layout label around : Layout} {field : Field}
    {members : List TypeTree} {start : Nat} :
    Matched type layout label (.composite field members) → field.isArray = false →
    (∀ below, start < below → below ≤ row →
      ¬ Starts sheet (.composite field members) label.members below) →
    Kept sheet row (.composite field members) label start outer around →
    Kept sheet row type layout start outer around
  | array {type outer : TypeTree} {layout label around : Layout} {field : Field}
    {members : List TypeTree} {top start : Nat} :
    Matched type layout label (.composite field members) → field.isArray = true →
    Opens sheet (.composite field members) label top row start →
    Kept sheet row (.composite field members) label start outer around →
    Kept sheet row type layout top outer around

/-- Below the header of a table, the way down to the record of a type leads to the record that a row
belongs to. -/
def KeptBelow (sheet : Sheet) (type : TypeTree) (layout : Layout) (row : Nat) (outer : TypeTree)
    (around : Layout) : Prop :=
  ∃ start, Opens sheet type layout ((type.maxDepth + 1) % (Literal.maxCount + 1)) row start ∧
    Kept sheet row type layout start outer around

/-- A cell with a value stands in a column. -/
def Shown (sheet : Sheet) (column : Nat) (cell : Cell) : Prop :=
  cell.column = column ∧ sheet.get? cell.row cell.column = some cell ∧ cell.isBlank = false

/-- A cell with a value of a leaf below a record that starts in row `start`, in a row that is
kept. -/
def Source (sheet : Sheet) (type : TypeTree) (layout : Layout) (start : Nat) (cell : Cell)
    (scalar : ScalarType) : Prop :=
  ∃ outer around label field, Kept sheet cell.row type layout start outer around ∧
    Matched outer around label (.leaf field scalar) ∧ Shown sheet label.first cell

/-- The same for a record of an array that is read from row `top` on. -/
def ArraySource (sheet : Sheet) (type : TypeTree) (layout : Layout) (top : Nat) (cell : Cell)
    (scalar : ScalarType) : Prop :=
  ∃ start, Opens sheet type layout top cell.row start ∧ Source sheet type layout start cell scalar

/-- The same for one field of a record. -/
def FieldSource (sheet : Sheet) (label : Layout) (member : TypeTree) (start : Nat) (cell : Cell)
    (scalar : ScalarType) : Prop :=
  match member with
  | .leaf _ own => scalar = own ∧ Shown sheet label.first cell
  | .composite field _ =>
    if field.isArray then ArraySource sheet member label start cell scalar
    else (∀ below, start < below → below ≤ cell.row → ¬ Starts sheet member label.members below) ∧
      Source sheet member label start cell scalar

variable {α ε : Type} {sheet : Sheet} {type : TypeTree} {layout label : Layout}
  {row start stop top last bound : Nat} {cell : Cell} {scalar : ScalarType}

/-- The cells of a record are those of its fields. -/
theorem source_iff : Source sheet type layout start cell scalar ↔ ∃ label member,
    Matched type layout label member ∧ FieldSource sheet label member start cell scalar := by
  constructor
  · rintro ⟨outer, around, inner, field, hkept, hmatched, hshown⟩
    cases hkept with
    | refl => exact ⟨inner, _, hmatched, rfl, hshown⟩
    | single hfirst hsingle hrows hkept =>
      refine ⟨_, _, hfirst, ?_⟩
      rw [FieldSource, if_neg (by simp [hsingle])]
      exact ⟨hrows, outer, around, inner, field, hkept, hmatched, hshown⟩
    | array hfirst harray hopens hkept =>
      refine ⟨_, _, hfirst, ?_⟩
      rw [FieldSource, if_pos harray]
      exact ⟨_, hopens, outer, around, inner, field, hkept, hmatched, hshown⟩
  · rintro ⟨inner, member, hmatched, hsource⟩
    cases member with
    | leaf field own =>
      obtain ⟨rfl, hshown⟩ := hsource
      exact ⟨type, layout, inner, field, .refl _ _ _, hmatched, hshown⟩
    | composite field members =>
      rw [FieldSource] at hsource
      split at hsource
      · rename_i harray
        obtain ⟨start', hopens, outer, around, label, leaf, hkept, hleaf, hshown⟩ := hsource
        exact ⟨outer, around, label, leaf, .array hmatched harray hopens hkept, hleaf, hshown⟩
      · rename_i hsingle
        obtain ⟨hrows, outer, around, label, leaf, hkept, hleaf, hshown⟩ := hsource
        exact ⟨outer, around, label, leaf,
          .single hmatched (Bool.eq_false_iff.2 hsingle) hrows hkept, hleaf, hshown⟩

theorem Kept.reaches {outer : TypeTree} {around : Layout}
    (h : Kept sheet row type layout start outer around) : Reaches type layout outer around := by
  induction h with
  | refl => exact .refl _ _
  | single hmatched _ _ _ ih => exact .step hmatched ih
  | array hmatched _ _ _ ih => exact .step hmatched ih

/-- The cells of a record are in columns of its fields. -/
theorem Source.fieldColumn (h : Source sheet type layout start cell scalar) :
    FieldColumn type layout cell.column := by
  obtain ⟨outer, around, label, field, hkept, hmatched, hshown⟩ := h
  exact ⟨outer, around, label, _, hkept.reaches, hmatched, hshown.1.symm⟩

/-- The cells of a field are in the block of its label. -/
theorem FieldSource.column_mem {member : TypeTree}
    (h : FieldSource sheet label member start cell scalar) (hspans : Spans bound label) :
    label.first ≤ cell.column ∧ cell.column < bound := by
  obtain ⟨hfirst, hlast, hbelow⟩ := hspans
  cases member with
  | leaf field own =>
    obtain ⟨-, hcolumn, -⟩ := h
    omega
  | composite field members =>
    rw [FieldSource] at h
    split at h
    · obtain ⟨start', -, hsource⟩ := h
      exact hsource.fieldColumn.mem_range hbelow hlast
    · exact h.2.fieldColumn.mem_range hbelow hlast

/-! ## Records of an array -/

/-- A row that starts a record is not blank. -/
theorem isBlankRow_of_starts (hspans : SpansAll layout.first bound layout.members)
    (hbound : bound ≤ layout.last + 1) (h : Starts sheet type layout.members row) :
    sheet.isBlankRow row layout.first layout.last = false := by
  obtain ⟨label, member, hmatched, -, hfilled⟩ := starts_iff.1 h
  obtain ⟨hfirst, hlast⟩ := hmatched.fieldColumn.mem_range hspans hbound
  by_contra hblank
  rw [Bool.not_eq_false, Sheet.isBlankRow_eq_true] at hblank
  rw [hblank _ hfirst (by omega)] at hfilled
  cases hfilled

theorem opens_of_isBlankRow (h : sheet.isBlankRow top layout.first layout.last = true) :
    Opens sheet type layout top row start ↔ Opens sheet type layout (top + 1) row start := by
  constructor
  · rintro ⟨htop, hrow, hfilled, hfirst, hlast⟩
    have hne : top ≠ start := fun heq => by
      rw [heq, hfilled] at h
      cases h
    exact ⟨by omega, hrow, hfilled, hfirst.imp_right fun hblank above h₁ =>
      hblank above (Nat.le_of_succ_le h₁), hlast⟩
  · rintro ⟨htop, hrow, hfilled, hfirst, hlast⟩
    refine ⟨Nat.le_of_succ_le htop, hrow, hfilled, hfirst.imp_right fun hblank above h₁ h₂ => ?_,
      hlast⟩
    rcases h₁.eq_or_lt with rfl | h₁
    · exact h
    · exact hblank above h₁ h₂

/-- A row below a row that is not blank belongs to the record that starts there, or to one that
starts below its end. -/
theorem opens_of_filled (start : Nat) (hspans : SpansAll layout.first bound layout.members)
    (hbound : bound ≤ layout.last + 1)
    (hfilled : sheet.isBlankRow top layout.first layout.last = false) (hrow : row ≤ stop)
    (htop : top ≤ stop) (hlast : recordEnd sheet type layout.members top stop = last) :
    Opens sheet type layout top row start ↔
      (start = top ∧ top ≤ row ∧ row ≤ last) ∨ Opens sheet type layout (last + 1) row start := by
  obtain ⟨hrange, hnone, hnext⟩ := recordEnd_spec sheet type layout.members htop
  rw [hlast] at hrange hnone hnext
  constructor
  · rintro ⟨h₁, h₂, hstart, hfirst, hbelow⟩
    have hstarts : start = top ∨ Starts sheet type layout.members start := by
      rcases hfirst with hstarts | hblank
      · exact Or.inr hstarts
      · refine Or.inl (le_antisymm (Nat.le_of_not_lt fun hlt => ?_) h₁)
        rw [hblank top (le_refl _) hlt] at hfilled
        cases hfilled
    by_cases hrecord : row ≤ last
    · refine Or.inl ⟨?_, by omega, hrecord⟩
      rcases hstarts with heq | hstarts
      · exact heq
      · by_contra hne
        exact hnone start (by omega) (h₂.trans hrecord) hstarts
    · have hbelow' : last + 1 ≤ start := by
        by_contra hle
        exact hbelow (last + 1) (by omega) (by omega) (hnext (by omega))
      refine Or.inr ⟨hbelow', h₂, hstart, Or.inl ?_, hbelow⟩
      exact hstarts.resolve_left (by omega)
  · rintro (⟨rfl, h₁, h₂⟩ | ⟨h₁, h₂, hstart, hfirst, hbelow⟩)
    · exact ⟨le_refl _, h₁, hfilled, Or.inr fun above h₃ h₄ => absurd h₃ (Nat.not_le_of_lt h₄),
        fun below h₃ h₄ => hnone below h₃ (h₄.trans h₂)⟩
    · have hnext' : Starts sheet type layout.members (last + 1) := hnext (by omega)
      refine ⟨by omega, h₂, hstart, Or.inl ?_, hbelow⟩
      rcases hfirst with hstarts | hblank
      · exact hstarts
      · rcases h₁.eq_or_lt with rfl | hlt
        · exact hnext'
        · have := isBlankRow_of_starts hspans hbound hnext'
          rw [hblank (last + 1) (le_refl _) hlt] at this
          cases this

/-- The cells of an array in and below a row that is not blank are those of the record that starts
there and those below its end. -/
theorem arraySource_of_filled (hspans : SpansAll layout.first bound layout.members)
    (hbound : bound ≤ layout.last + 1)
    (hfilled : sheet.isBlankRow top layout.first layout.last = false)
    (htop : top ≤ stop) (hlast : recordEnd sheet type layout.members top stop = last) :
    ((top ≤ cell.row ∧ cell.row ≤ stop) ∧ ArraySource sheet type layout top cell scalar) ↔
      ((top ≤ cell.row ∧ cell.row ≤ last) ∧ Source sheet type layout top cell scalar) ∨
      ((last + 1 ≤ cell.row ∧ cell.row ≤ stop) ∧
        ArraySource sheet type layout (last + 1) cell scalar) := by
  obtain ⟨hrange, -, -⟩ := recordEnd_spec sheet type layout.members htop
  rw [hlast] at hrange
  have hopens := fun (hrow : cell.row ≤ stop) (start : Nat) =>
    opens_of_filled start hspans hbound hfilled hrow htop hlast
  constructor
  · rintro ⟨⟨-, hrow⟩, start, hstart, hsource⟩
    rcases (hopens hrow start).1 hstart with ⟨rfl, hrows⟩ | hbelow
    · exact Or.inl ⟨hrows, hsource⟩
    · exact Or.inr ⟨⟨hbelow.top_le.trans hbelow.le_row, hrow⟩, start, hbelow, hsource⟩
  · rintro (⟨hrows, hsource⟩ | ⟨hrows, start, hbelow, hsource⟩)
    · have hrow := hrows.2.trans hrange.2
      exact ⟨⟨hrows.1, hrow⟩, top, (hopens hrow top).2 (Or.inl ⟨rfl, hrows⟩), hsource⟩
    · exact ⟨⟨by omega, hrows.2⟩, start, (hopens hrows.2 start).2 (Or.inr hbelow), hsource⟩

variable {coerce : ScalarType → Cell → Except ε α}

/-- **The values of an array come from the cells of its records.** -/
theorem accounts_readRecords {top : Nat} {items : List (Extracted (Cell × α))}
    (hspans : SpansAll layout.first bound layout.members) (hbound : bound ≤ layout.last + 1)
    (hread : ∀ {start fields last}, start ≤ stop →
      readRecord (withCell coerce) sheet type layout start stop = .ok (fields, last) →
      Accounts coerce (fun cell scalar => (start ≤ cell.row ∧ cell.row ≤ last) ∧
        Source sheet type layout start cell scalar) (valuesOfFields fields))
    (h : readRecords (withCell coerce) sheet type layout top stop = .ok items) :
    Accounts coerce (fun cell scalar => (top ≤ cell.row ∧ cell.row ≤ stop) ∧
      ArraySource sheet type layout top cell scalar) (valuesOfItems items) := by
  rw [readRecords] at h
  by_cases hlt : stop < top
  · rw [collect_of_lt hlt] at h
    cases h
    refine .nil ?_
    rintro cell _ ⟨⟨h₁, h₂⟩, -⟩
    exact Nat.not_le_of_lt hlt (h₁.trans h₂)
  have htop : top ≤ stop := Nat.le_of_not_lt hlt
  cases hblank : sheet.isBlankRow top layout.first layout.last with
  | true =>
    rw [collect_of_isBlank htop hblank] at h
    refine (accounts_readRecords hspans hbound hread h).congr fun cell scalar => ?_
    simp only [ArraySource, opens_of_isBlankRow hblank]
    constructor
    · rintro ⟨⟨-, hrow⟩, start, hstart, hsource⟩
      exact ⟨⟨hstart.top_le.trans hstart.le_row, hrow⟩, start, hstart, hsource⟩
    · rintro ⟨⟨h₁, hrow⟩, hsource⟩
      exact ⟨⟨Nat.le_of_succ_le h₁, hrow⟩, hsource⟩
  | false =>
    rw [collect_of_filled htop hblank] at h
    obtain ⟨⟨fields, last⟩, hrecord, h⟩ := bind_eq_ok.1 h
    obtain ⟨rest, hrest, h⟩ := bind_eq_ok.1 h
    cases h
    obtain ⟨hlast, hle, -⟩ := last_of_readRecord htop hrecord
    rw [Nat.max_eq_right hle] at hrest
    rw [valuesOfItems_append, valuesOfItems_recordOf]
    refine ((hread htop hrecord).append (accounts_readRecords hspans hbound hread hrest) ?_).congr
      fun cell scalar => arraySource_of_filled hspans hbound hblank htop hlast.symm
    rintro cell _ _ ⟨⟨-, h₁⟩, -⟩ ⟨⟨h₂, -⟩, -⟩
    omega
termination_by stop + 1 - top

/-! ## Leaves -/

/-- The cells of a column from a row on are the one in that row, if it has a value, and those
below. -/
theorem shown_succ_iff (hsheet : sheet.Indexed) {column count : Nat} :
    (row ≤ cell.row ∧ cell.row < row + (count + 1)) ∧ Shown sheet column cell ↔
      (sheet.get? row column).filter (!·.isBlank) = some cell ∨
      (row + 1 ≤ cell.row ∧ cell.row < row + 1 + count) ∧ Shown sheet column cell := by
  constructor
  · rintro ⟨⟨h₁, h₂⟩, hshown⟩
    rcases h₁.eq_or_lt with heq | hlt
    · obtain ⟨rfl, hget, hfilled⟩ := hshown
      rw [heq, hget]
      exact Or.inl (by simp [hfilled])
    · exact Or.inr ⟨⟨hlt, by omega⟩, hshown⟩
  · rintro (hcell | ⟨⟨h₁, h₂⟩, hshown⟩)
    · obtain ⟨hget, hfilled⟩ := Option.filter_eq_some_iff.1 hcell
      obtain ⟨rfl, rfl⟩ := hsheet.isAt_of_get? hget
      exact ⟨⟨le_refl _, by omega⟩, rfl, hget, by simpa using hfilled⟩
    · exact ⟨⟨Nat.le_of_succ_le h₁, by omega⟩, hshown⟩

/-- The values of a column come from its cells. -/
theorem accounts_columnCells (hsheet : sheet.Indexed) (scalar : ScalarType) {column row count : Nat}
    {values : List (Cell × α)}
    (h : (columnCells sheet column row count).mapM (withCell coerce scalar) = .ok values) :
    Accounts coerce (fun cell own => (row ≤ cell.row ∧ cell.row < row + count) ∧ own = scalar ∧
      Shown sheet column cell) values := by
  induction count generalizing row values with
  | zero =>
    cases h
    refine .nil ?_
    rintro cell _ ⟨⟨h₁, h₂⟩, -⟩
    exact Nat.not_lt_of_le h₁ h₂
  | succ count ih =>
    rw [columnCells] at h
    cases hcell : (sheet.get? row column).filter (!·.isBlank) with
    | none =>
      rw [hcell] at h
      refine (ih h).congr fun cell own => ?_
      rw [and_left_comm, shown_succ_iff hsheet, hcell, and_left_comm]
      simp
    | some cell =>
      rw [hcell, List.mapM_cons] at h
      obtain ⟨pair, hpair, h⟩ := bind_eq_ok.1 h
      obtain ⟨rest, hrest, h⟩ := bind_eq_ok.1 h
      cases h
      obtain ⟨value, hvalue, rfl⟩ := map_eq_ok.1 hpair
      have hrow : cell.row = row :=
        (hsheet.isAt_of_get? (Option.filter_eq_some_iff.1 hcell).1).1
      refine ((Accounts.singleton hvalue).append (ih hrest) ?_).congr fun other own => ?_
      · rintro other _ _ ⟨rfl, -⟩ ⟨⟨h₁, -⟩, -⟩
        omega
      · rw [and_left_comm, shown_succ_iff hsheet, hcell, and_left_comm, Option.some.injEq,
          and_or_left, eq_comm (a := cell), and_comm (b := other = cell)]

/-- The values of a leaf come from the cells of its column: a single-valued one has no value below
the first row of a record. -/
theorem accounts_readLeaf (hsheet : sheet.Indexed) {field : Field} {column : Nat}
    {value : Option (Extracted (Cell × α))} (hle : start ≤ stop)
    (hblank : field.isArray = false → ∀ row, start < row → row ≤ stop →
      sheet.isBlank row column = true)
    (h : readLeaf (withCell coerce) sheet field scalar column start stop = .ok value) :
    Accounts coerce (fun cell own => (start ≤ cell.row ∧ cell.row ≤ stop) ∧ own = scalar ∧
      Shown sheet column cell) (value.elim [] values) := by
  rw [readLeaf] at h
  split at h
  · obtain ⟨values, hvalues, h⟩ := bind_eq_ok.1 h
    cases h
    rw [values_listOf, valuesOfItems_scalar]
    refine (accounts_columnCells hsheet scalar hvalues).congr fun cell own => ?_
    rw [show start + (stop + 1 - start) = stop + 1 by omega, Nat.lt_succ_iff]
  · rename_i hsingle
    -- the cells of the column in these rows are those of the first row
    have hcells : columnCells sheet column start (stop + 1 - start) =
        ((sheet.get? start column).filter (!·.isBlank)).toList := by
      rw [Nat.succ_sub hle, columnCells, columnCells_of_blank fun row h₁ h₂ =>
        hblank (Bool.eq_false_iff.2 hsingle) row h₁ (by omega)]
      cases (sheet.get? start column).filter (!·.isBlank) <;> rfl
    have hvalues : ((sheet.get? start column).filter (!·.isBlank)).toList.mapM
        (withCell coerce scalar) = .ok (value.elim [] values) := by
      cases hcell : (sheet.get? start column).filter (!·.isBlank) with
      | none =>
        rw [hcell] at h
        cases h
        rfl
      | some cell =>
        rw [hcell] at h
        obtain ⟨pair, hpair, rfl⟩ := map_eq_ok.1 h
        rw [Option.toList_some, List.mapM_cons, hpair, Option.elim_some, Extracted.values]
        rfl
    rw [← hcells] at hvalues
    refine (accounts_columnCells hsheet scalar hvalues).congr fun cell own => ?_
    rw [show start + (stop + 1 - start) = stop + 1 by omega, Nat.lt_succ_iff]

/-! ## Records -/

/-- The values of some fields come from the cells of each of them. -/
theorem accounts_readFields {labels : List Layout} {left : Nat}
    {FromField : Layout → TypeTree → Cell → ScalarType → Prop}
    (hspans : SpansAll left bound labels) (hnames : (labels.map Layout.name).Nodup)
    (hcolumn : ∀ {label member cell scalar bound}, FromField label member cell scalar →
      Spans bound label → label.first ≤ cell.column ∧ cell.column < bound)
    (hread : ∀ label ∈ labels, ∀ member, type.member? label.name = some member → ∀ value,
      readField (withCell coerce) sheet member label start stop = .ok value →
      Accounts coerce (FromField label member) (value.elim [] values))
    {fields : Entries (Extracted (Cell × α))}
    (h : readFields (withCell coerce) sheet type labels start stop [] = .ok fields) :
    Accounts coerce (fun cell scalar => ∃ label ∈ labels, ∃ member,
      type.member? label.name = some member ∧ FromField label member cell scalar)
      (valuesOfFields fields) := by
  induction labels generalizing left fields with
  | nil =>
    rw [readFields] at h
    cases h
    refine .nil ?_
    rintro _ _ ⟨_, hmem, -⟩
    cases hmem
  | cons label labels ih =>
    cases hspans with
    | cons hleft hlabel hrest =>
      have hread' := fun inner (hinner : inner ∈ labels) =>
        hread inner (List.mem_cons_of_mem _ hinner)
      have hothers := hnames.of_cons
      cases hmember : type.member? label.name with
      | none =>
        rw [readFields_cons_of_none hmember] at h
        exact (ih hrest hothers hread' h).congr fun cell scalar => by simp [hmember]
      | some member =>
        rw [readFields_cons_of_distinct hnames hmember] at h
        obtain ⟨value, hvalue, h⟩ := bind_eq_ok.1 h
        obtain ⟨rest, hfields, h⟩ := bind_eq_ok.1 h
        cases h
        have hfirst := hread label List.mem_cons_self member hmember value hvalue
        rw [valuesOfFields_append, valuesOfFields_toList]
        refine (hfirst.append (ih hrest hothers hread' hfields) ?_).congr fun cell scalar => by
          simp [hmember]
        rintro cell _ _ hcell ⟨inner, hinner, member', -, hcell'⟩
        have hlt := (hcolumn hcell hlabel).2
        obtain ⟨hmiddle, bound', -, hspans'⟩ := hrest.exists_of_mem hinner
        have := (hcolumn hcell' hspans').1
        omega

/-- A row belongs to the record of a single field while that has no further value. -/
theorem le_recordEnd_iff {labels : List Layout} (hle : start ≤ stop) :
    row ≤ recordEnd sheet type labels start stop ↔
      row ≤ stop ∧ ∀ below, start < below → below ≤ row → ¬ Starts sheet type labels below := by
  obtain ⟨hrange, hnone, hnext⟩ := recordEnd_spec sheet type labels hle
  constructor
  · exact fun hrow => ⟨hrow.trans hrange.2, fun below h₁ h₂ => hnone below h₁ (h₂.trans hrow)⟩
  · rintro ⟨hrow, hbelow⟩
    by_contra hlt
    exact hbelow _ (by omega) (by omega) (hnext (by omega))

/-- The values of one field come from the cells of its rows, if those of a record under its label
do. -/
theorem accounts_readField (hsheet : sheet.Indexed) (hle : start ≤ stop) {member : TypeTree}
    (hspans : SpansAll label.first bound label.members) (hbound : bound ≤ label.last + 1)
    (hleaf : ∀ field scalar, member = .leaf field scalar → field.isArray = false →
      ∀ row, start < row → row ≤ stop → sheet.isBlank row label.first = true)
    (hrecord : ∀ {type start stop last} {fields : Entries (Extracted (Cell × α))}, start ≤ stop →
      readRecord (withCell coerce) sheet type label start stop = .ok (fields, last) →
      Accounts coerce (fun cell scalar => (start ≤ cell.row ∧ cell.row ≤ last) ∧
        Source sheet type label start cell scalar) (valuesOfFields fields))
    {value : Option (Extracted (Cell × α))}
    (h : readField (withCell coerce) sheet member label start stop = .ok value) :
    Accounts coerce (fun cell scalar => (start ≤ cell.row ∧ cell.row ≤ stop) ∧
      FieldSource sheet label member start cell scalar) (value.elim [] values) := by
  cases member with
  | leaf field scalar => exact accounts_readLeaf hsheet hle (hleaf field scalar rfl) h
  | composite field members =>
    rw [readField_composite] at h
    simp only [FieldSource]
    split at h
    · rename_i harray
      obtain ⟨items, hitems, rfl⟩ := map_eq_ok.1 h
      rw [values_listOf]
      refine (accounts_readRecords hspans hbound hrecord hitems).congr fun cell own => ?_
      rw [if_pos harray]
    · rename_i hsingle
      obtain ⟨⟨inner, last⟩, hinner, rfl⟩ := map_eq_ok.1 h
      rw [values_recordOf]
      refine (hrecord hle hinner).congr fun cell own => ?_
      rw [if_neg hsingle, (last_of_readRecord hle hinner).1, le_recordEnd_iff hle]
      simp only [and_assoc]

/-- **The values of a record come from the cells of the rows that are kept.** -/
theorem accounts_readRecord (hsheet : sheet.Indexed) (layout : Layout) :
    ∀ {type : TypeTree} {start stop last bound : Nat} {fields : Entries (Extracted (Cell × α))},
      SpansAll layout.first bound layout.members → bound ≤ layout.last + 1 → layout.Distinct →
      start ≤ stop →
      readRecord (withCell coerce) sheet type layout start stop = .ok (fields, last) →
      Accounts coerce (fun cell scalar => (start ≤ cell.row ∧ cell.row ≤ last) ∧
        Source sheet type layout start cell scalar) (valuesOfFields fields) := by
  induction layout using Layout.induction with
  | step layout ih =>
    rintro type start stop last bound fields hspans hbound ⟨hnames, hdistinct⟩ hle h
    obtain ⟨hlast, hrange⟩ := last_of_readRecord hle h
    rw [readRecord_eq, ← hlast] at h
    obtain ⟨read, hfields, heq⟩ := map_eq_ok.1 h
    cases heq
    have hread : ∀ label ∈ layout.members, ∀ member, type.member? label.name = some member →
        ∀ value, readField (withCell coerce) sheet member label start last = .ok value →
        Accounts coerce (fun cell scalar => (start ≤ cell.row ∧ cell.row ≤ last) ∧
          FieldSource sheet label member start cell scalar) (value.elim [] values) := by
      intro label hmem member hmember value hvalue
      obtain ⟨-, bound', -, -, hbound', hspans'⟩ := hspans.exists_of_mem hmem
      refine accounts_readField hsheet hrange.1 hspans' hbound' ?_
        (ih label hmem hspans' hbound' (hdistinct label hmem)) hvalue
      -- a further value of a single leaf would have started another record
      rintro field scalar rfl hsingle row h₁ h₂
      by_contra hfilled
      have hrow : row ≤ recordEnd sheet type layout.members start stop := hlast ▸ h₂
      exact ((le_recordEnd_iff hle).1 hrow).2 row h₁ (le_refl row)
        ⟨label, hmem, _, hmember, hsingle, Bool.eq_false_iff.2 hfilled⟩
    refine (accounts_readFields hspans hnames
      (fun hsource hspans => hsource.2.column_mem hspans) hread hfields).congr fun cell scalar => ?_
    rw [source_iff]
    constructor
    · rintro ⟨hrows, inner, member, ⟨hmem, hmember⟩, hsource⟩
      exact ⟨inner, hmem, member, hmember, hrows, hsource⟩
    · rintro ⟨inner, hmem, member, hmember, hrows, hsource⟩
      exact ⟨hrows, inner, member, ⟨hmem, hmember⟩, hsource⟩

/-! ## The field of a column -/

/-- Nothing is found below a leaf. -/
theorem not_matched_of_leaf {field : Field} {outer member : TypeTree} {around inner : Layout}
    (hreach : Reaches (.leaf field scalar) label outer around) :
    ¬ Matched outer around inner member := by
  rintro ⟨-, hmember⟩
  cases hreach with
  | refl => cases hmember
  | step hmatched => cases hmatched.member?_eq

/-- **The leaves below a layout have different columns.** -/
theorem leaf_unique {outer outer' : TypeTree} {around around' label' : Layout}
    {field field' : Field} {scalar' : ScalarType}
    (hspans : SpansAll layout.first bound layout.members) (hbound : bound ≤ layout.last + 1)
    (hreach : Reaches type layout outer around)
    (hmatched : Matched outer around label (.leaf field scalar))
    (hreach' : Reaches type layout outer' around')
    (hmatched' : Matched outer' around' label' (.leaf field' scalar'))
    (heq : label.first = label'.first) : outer = outer' ∧ around = around' ∧ scalar = scalar' := by
  have hblock : ∀ {member outer : TypeTree} {top around leaf : Layout} {field scalar},
      Reaches member top outer around → Matched outer around leaf (.leaf field scalar) →
      ∀ bound, Spans bound top → top.first ≤ leaf.first ∧ leaf.first < bound := by
    rintro _ _ _ _ _ _ _ hreach hmatched bound ⟨-, hlast, hbelow⟩
    exact FieldColumn.mem_range ⟨_, _, _, _, hreach, hmatched, rfl⟩ hbelow hlast
  have hown : ∀ {leaf : Layout} bound, Spans bound leaf →
      leaf.first ≤ leaf.first ∧ leaf.first < bound := by
    rintro leaf bound ⟨hlt, -, -⟩
    exact ⟨le_refl _, hlt⟩
  induction hreach generalizing bound with
  | refl type layout =>
    cases hreach' with
    | refl =>
      have hsame := hspans.eq_of_column hmatched.mem hmatched'.mem hown
        (by rw [heq]; exact hown)
      subst hsame
      have hmember := hmatched.member?_eq.symm.trans hmatched'.member?_eq
      cases hmember
      exact ⟨rfl, rfl, rfl⟩
    | step hfirst hrest =>
      have hsame := hspans.eq_of_column hmatched.mem hfirst.mem hown (heq ▸ hblock hrest hmatched')
      subst hsame
      cases hmatched.member?_eq.symm.trans hfirst.member?_eq
      exact absurd hmatched' (not_matched_of_leaf hrest)
  | step hfirst hrest ih =>
    cases hreach' with
    | refl =>
      have hsame := hspans.eq_of_column hmatched'.mem hfirst.mem hown
        (heq ▸ hblock hrest hmatched)
      subst hsame
      cases hmatched'.member?_eq.symm.trans hfirst.member?_eq
      exact absurd hmatched (not_matched_of_leaf hrest)
    | step hfirst' hrest' =>
      have hsame := hspans.eq_of_column hfirst.mem hfirst'.mem (hblock hrest hmatched)
        (heq ▸ hblock hrest' hmatched')
      subst hsame
      cases hfirst.member?_eq.symm.trans hfirst'.member?_eq
      obtain ⟨-, bound', -, -, hbound', hspans'⟩ := hspans.exists_of_mem hfirst.mem
      exact ih hspans' hbound' hmatched hrest'

end Extraction

/-! ## Tables -/

/-- A cell of a sheet lies in its rows. -/
theorem Sheet.row_le_maxRow_of_get? {fileName name : String} {cells : List Cell} {row column : Nat}
    {cell : Cell} (h : (ofCells fileName name cells).get? row column = some cell) :
    row ≤ (ofCells fileName name cells).maxRow := by
  obtain ⟨rfl, -⟩ := (indexed_ofCells fileName name cells).isAt_of_get? h
  rw [get?_ofCells] at h
  exact row_le_maxRow_ofCells fileName name (List.mem_reverse.1 (List.mem_of_find?_eq_some h))

open Extraction in
/-- **Each cell of a leaf has one place in what is extracted if its row is kept on the way down to
the leaf, and no place otherwise.** What is extracted is followed with each value kept together with
its cell. -/
theorem extractTable_places (fileName name : String) (cells : List Cell) {type : TypeTree}
    {layout : Layout} {records : List (Extracted Scalar)}
    (hlayout : Layout.ofSheet (Sheet.ofCells fileName name cells) type.maxDepth = .ok layout)
    (hdistinct : layout.Distinct)
    (hread : extractTable (Sheet.ofCells fileName name cells) type = .ok records) :
    ∃ origins : List (Extracted (Cell × Scalar)),
      readTable (withCell (coerceIn (Sheet.ofCells fileName name cells)))
        (Sheet.ofCells fileName name cells) type layout type.maxDepth = .ok origins ∧
      records = origins.map (Extracted.map Prod.snd) ∧
      ∀ outer around label field scalar row cell, Reaches type layout outer around →
        Matched outer around label (.leaf field scalar) → type.maxDepth < row →
        (Sheet.ofCells fileName name cells).get? row label.first = some cell →
        cell.isBlank = false →
        (KeptBelow (Sheet.ofCells fileName name cells) type layout row outer around ∧
          ∃ value, coerceIn (Sheet.ofCells fileName name cells) scalar cell = .ok value ∧
            placesOf (Extracted.valuesOfItems origins) cell = [value]) ∨
        (¬ KeptBelow (Sheet.ofCells fileName name cells) type layout row outer around ∧
          placesOf (Extracted.valuesOfItems origins) cell = []) := by
  have hindexed := Sheet.indexed_ofCells fileName name cells
  have hspans := Layout.spansAll_ofSheet hlayout
  rw [extractTable, hlayout] at hread
  obtain ⟨_, hlayout', hread⟩ := bind_eq_ok.1 hread
  cases hlayout'
  obtain ⟨_, -, hread⟩ := bind_eq_ok.1 hread
  rw [readTable_withCell] at hread
  obtain ⟨origins, horigins, rfl⟩ := map_eq_ok.1 hread
  refine ⟨origins, horigins, rfl, ?_⟩
  have haccounts := accounts_readRecords hspans (le_refl _)
    (fun hle h => accounts_readRecord hindexed layout hspans (le_refl _) hdistinct hle h) horigins
  intro outer around label field scalar row cell hreach hmatched hrow hget hfilled
  obtain ⟨rfl, hcolumn⟩ := hindexed.isAt_of_get? hget
  have hshown : Shown (Sheet.ofCells fileName name cells) label.first cell :=
    ⟨hcolumn, hcolumn ▸ hget, hfilled⟩
  by_cases hkept : KeptBelow (Sheet.ofCells fileName name cells) type layout cell.row outer around
  · left
    obtain ⟨start, hopens, hway⟩ := hkept
    refine ⟨⟨start, hopens, hway⟩, haccounts.placesOf_eq ⟨⟨?_, ?_⟩, start, hopens, outer, around,
      label, field, hway, hmatched, hshown⟩⟩
    · exact (Nat.mod_le _ _).trans hrow
    · exact (Sheet.row_le_maxRow_of_get? hget).trans (le_max_left _ _)
  · right
    refine ⟨hkept, haccounts.placesOf_eq_nil ?_⟩
    rintro scalar' ⟨-, start, hopens, outer', around', label', field', hway, hmatched', hshown'⟩
    obtain ⟨rfl, rfl, -⟩ := leaf_unique hspans (le_refl _) hreach hmatched hway.reaches hmatched'
      (hshown.1.symm.trans hshown'.1)
    exact hkept ⟨start, hopens, hway⟩

namespace Stock

open Extraction

theorem distinct_layout : layout.Distinct := by
  have hleaf : ∀ name column, (label name column).Distinct := fun _ _ =>
    .mk List.nodup_nil (List.forall_mem_nil _)
  have hsize : sizeLabel.Distinct := by
    refine .mk (by decide) ?_
    rw [sizeLabel, List.forall_mem_cons, List.forall_mem_singleton]
    exact ⟨hleaf _ _, hleaf _ _⟩
  have hpieces : piecesLabel.Distinct := by
    refine .mk (by decide) ?_
    rw [piecesLabel, List.forall_mem_cons, List.forall_mem_cons, List.forall_mem_singleton]
    exact ⟨hleaf _ _, hsize, hleaf _ _⟩
  refine .mk (by decide) ?_
  rw [layout, List.forall_mem_cons, List.forall_mem_cons, List.forall_mem_singleton]
  exact ⟨hleaf _ _, hpieces, hleaf _ _⟩

theorem matched_pieces : Matched type layout piecesLabel pieces :=
  ⟨List.mem_cons_of_mem _ List.mem_cons_self, rfl⟩

theorem matched_size : Matched pieces piecesLabel sizeLabel size :=
  ⟨List.mem_cons_of_mem _ List.mem_cons_self, rfl⟩

theorem matched_depth : Matched size sizeLabel (label "depth" 4) (field "depth") :=
  ⟨List.mem_cons_of_mem _ List.mem_cons_self, rfl⟩

theorem reaches_size : Reaches type layout size sizeLabel :=
  .step matched_pieces (.step matched_size (.refl _ _))

set_option maxRecDepth 10000 in
/-- The row of the second item is the first one of the item, of its piece and of the size. -/
theorem keptBelow_items : KeptBelow (sheet items) type layout 7 size sizeLabel := by
  have hitem : Starts (sheet items) type layout.members 7 :=
    ⟨label "id" 1, List.mem_cons_self, field "id", rfl, rfl, by cbv⟩
  have hpiece : Starts (sheet items) pieces piecesLabel.members 7 :=
    ⟨label "code" 2, List.mem_cons_self, field "code", rfl, rfl, by cbv⟩
  have hopens : ∀ {type layout top}, top ≤ 7 → Starts (sheet items) type layout.members 7 →
      (sheet items).isBlankRow 7 layout.first layout.last = false →
      Opens (sheet items) type layout top 7 7 := fun htop hstarts hfilled =>
    ⟨htop, le_refl 7, hfilled, Or.inl hstarts, fun below h₁ h₂ => absurd h₁ (Nat.not_lt_of_le h₂)⟩
  refine ⟨7, hopens (by decide) hitem (by cbv), ?_⟩
  refine .array matched_pieces rfl (hopens (le_refl 7) hpiece (by cbv)) ?_
  exact .single matched_size rfl (fun below h₁ h₂ => absurd h₁ (Nat.not_lt_of_le h₂)) (.refl _ _ _)

set_option maxRecDepth 10000 in
/-- The depth of the piece of the second item has one place. -/
theorem placesOf_items : ∃ origins : List (Extracted (Cell × Scalar)),
    [firstItem, secondItem] = origins.map (Extracted.map Prod.snd) ∧
      placesOf (Extracted.valuesOfItems origins) (cell 7 4 "4") = [.string "4"] := by
  have hlayout : Layout.ofSheet (sheet items) type.maxDepth = .ok layout := by cbv
  obtain ⟨origins, -, horigins, hplaces⟩ := extractTable_places "stock.xlsx" "Stock"
    (header ++ items) hlayout distinct_layout extractTable_items
  refine ⟨origins, horigins, ?_⟩
  rcases hplaces size sizeLabel (label "depth" 4) _ _ 7 (cell 7 4 "4") reaches_size matched_depth
    (by decide) (by cbv) (by decide) with ⟨-, value, hvalue, hplace⟩ | ⟨hnot, -⟩
  · cases hvalue
    exact hplace
  · exact absurd keptBelow_items hnot

/-- An item with a piece whose size has a value below the row of the code. -/
def cutPiece : List Cell := [cell 4 1 "a", cell 4 2 "x", cell 5 4 "2"]

set_option maxRecDepth 10000 in
/-- A value below the end of a single record has no place: the size ends above its second row. -/
theorem extractTable_cutPiece :
    (Layout.ofSheet (sheet cutPiece) type.maxDepth = .ok layout ∧ layout.Distinct ∧
      Reaches type layout size sizeLabel ∧
      Matched size sizeLabel (label "depth" 4) (.leaf { name := "depth" } .string) ∧
      type.maxDepth < 5 ∧ (sheet cutPiece).get? 5 (label "depth" 4).first = some (cell 5 4 "2") ∧
      (cell 5 4 "2").isBlank = false ∧
      coerceIn (sheet cutPiece) .string (cell 5 4 "2") = .ok (.string "2")) ∧
    extractTable (sheet cutPiece) type = .ok [.record [("id", value "a"),
      ("pieces", .list [.record [("code", value "x")]])]] ∧
    Scalar.string "2" ∉ Extracted.valuesOfItems [.record [("id", value "a"),
      ("pieces", .list [.record [("code", value "x")]])]] := by
  refine ⟨⟨by cbv, distinct_layout, reaches_size, matched_depth, by decide, by cbv, by decide, rfl⟩,
    extractTable_sheet 5 (by cbv) (by cbv) (by decide) (by cbv), by decide⟩

end Stock

end TableExport
