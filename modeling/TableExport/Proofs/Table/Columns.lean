import TableExport.Proofs.Results
import TableExport.Proofs.Sheet.Region
import TableExport.Proofs.Table.Reading

/-!
# The columns of the fields

A label of a layout belongs to a field when it has its name, level by level from the root of the
table (`Matched`, `Reaches`). What is read from a range of rows depends on two things only: on the
first columns of these labels, and on which rows count as blank.

* `recordEnd_congr`, `readFields_congr`, `collect_congr`: when the parts of two walks agree.
* `Alike` says that two sheets agree in these columns, and that both walks pass over any row that is
  blank in one of them and not in the other.
* `readRecord_congr`, `readRecords_congr`: then the two walks read the same.
* `alike_of_rows`: sheets with the same cells in some rows are alike in them.
-/

namespace TableExport

/-- What holds of a layout when it holds of the labels below it holds of every layout. -/
@[elab_as_elim]
theorem Layout.induction {motive : Layout → Prop}
    (step : ∀ layout, (∀ label ∈ layout.members, motive label) → motive layout) :
    ∀ layout, motive layout
  | ⟨name, first, last, members⟩ => step _ fun label _ => Layout.induction step label
termination_by layout => sizeOf layout
decreasing_by
  have hlt : sizeOf label < sizeOf members := List.sizeOf_lt_of_mem ‹_›
  simp only [Layout.mk.sizeOf_spec]
  omega

namespace Extraction

variable {α ε : Type} {sheet other : Sheet}

/-! ## Fields and their labels -/

/-- A label under a layout belongs to a member of a type. -/
structure Matched (type : TypeTree) (layout label : Layout) (member : TypeTree) : Prop where
  mem : label ∈ layout.members
  member?_eq : type.member? label.name = some member

/-- A field and its label are found below a type and its layout, matched level by level. -/
inductive Reaches : TypeTree → Layout → TypeTree → Layout → Prop
  | refl (type : TypeTree) (layout : Layout) : Reaches type layout type layout
  | step {type member inner : TypeTree} {layout label innerLabel : Layout} :
    Matched type layout label member → Reaches member label inner innerLabel →
    Reaches type layout inner innerLabel

/-- A column is the first one of a label that belongs to some field. -/
def FieldColumn (type : TypeTree) (layout : Layout) (column : Nat) : Prop :=
  ∃ outer around label member, Reaches type layout outer around ∧
    Matched outer around label member ∧ label.first = column

section Fields

variable {type member : TypeTree} {layout label : Layout} {column row : Nat}

theorem Matched.fieldColumn (h : Matched type layout label member) :
    FieldColumn type layout label.first :=
  ⟨type, layout, label, member, Reaches.refl type layout, h, rfl⟩

theorem Matched.reaches (h : Matched type layout label member) : Reaches type layout member label :=
  Reaches.step h (Reaches.refl member label)

theorem Reaches.trans {inner : TypeTree} {innerLabel : Layout}
    (h : Reaches type layout member label) (hinner : Reaches member label inner innerLabel) :
    Reaches type layout inner innerLabel := by
  induction h with
  | refl => exact hinner
  | step hmatched _ ih => exact Reaches.step hmatched (ih hinner)

theorem FieldColumn.of_reaches (h : Reaches type layout member label)
    (hcolumn : FieldColumn member label column) : FieldColumn type layout column := by
  obtain ⟨outer, around, inner, field, hreach, hinner, rfl⟩ := hcolumn
  exact ⟨outer, around, inner, field, h.trans hreach, hinner, rfl⟩

theorem FieldColumn.below (h : Matched type layout label member)
    (hcolumn : FieldColumn member label column) : FieldColumn type layout column :=
  hcolumn.of_reaches h.reaches

/-- The labels under a layout that belong to fields of a type, with these. -/
def matching (type : TypeTree) (layout : Layout) : List (Layout × TypeTree) :=
  layout.members.filterMap fun label => (type.member? label.name).map fun member => (label, member)

theorem mem_matching :
    (label, member) ∈ matching type layout ↔ Matched type layout label member := by
  simp only [matching, List.mem_filterMap, Option.map_eq_some_iff, Prod.mk.injEq]
  constructor
  · rintro ⟨label, hmem, member, hmember, rfl, rfl⟩
    exact ⟨hmem, hmember⟩
  · rintro ⟨hmem, hmember⟩
    exact ⟨label, hmem, member, hmember, rfl, rfl⟩

/-- All fields below a layout have a property, each with its label and with the type and the label
that it is found in. -/
def Throughout (P : TypeTree → Layout → Layout → TypeTree → Prop) (type : TypeTree)
    (layout : Layout) : Prop :=
  ∀ outer around label member, Reaches type layout outer around →
    Matched outer around label member → P outer around label member

theorem Throughout.of_reaches {P : TypeTree → Layout → Layout → TypeTree → Prop}
    (h : Throughout P type layout) (hreach : Reaches type layout member label) :
    Throughout P member label :=
  fun outer around label member hinner => h outer around label member (hreach.trans hinner)

/-- What holds of the fields of a type and of all that is below each of them holds throughout. -/
theorem Throughout.of_matching {P : TypeTree → Layout → Layout → TypeTree → Prop}
    (fields : List (Layout × TypeTree)) (heq : matching type layout = fields)
    (h : ∀ field ∈ fields, P type layout field.1 field.2 ∧ Throughout P field.2 field.1) :
    Throughout P type layout := by
  intro outer around label member hreach hmatched
  subst heq
  cases hreach with
  | refl => exact (h _ (mem_matching.2 hmatched)).1
  | step hfirst hrest => exact (h _ (mem_matching.2 hfirst)).2 _ _ _ _ hrest hmatched

theorem starts_iff : Starts sheet type layout.members row ↔ ∃ label member,
    Matched type layout label member ∧ member.isArray = false ∧
      sheet.isBlank row label.first = false := by
  constructor
  · rintro ⟨label, hmem, member, hmember, hsingle, hfilled⟩
    exact ⟨label, member, ⟨hmem, hmember⟩, hsingle, hfilled⟩
  · rintro ⟨label, member, ⟨hmem, hmember⟩, hsingle, hfilled⟩
    exact ⟨label, hmem, member, hmember, hsingle, hfilled⟩

end Fields

/-! ## Parts of two walks -/

theorem isBlank_congr {row row' column column' : Nat}
    (h : sheet.get? row column = other.get? row' column') :
    sheet.isBlank row column = other.isBlank row' column' := by
  rw [Sheet.isBlank, Sheet.isBlank, h]

theorem starts_congr {type : TypeTree} {layout : Layout} {row : Nat}
    (h : ∀ column, FieldColumn type layout column →
      sheet.get? row column = other.get? row column) :
    Starts sheet type layout.members row ↔ Starts other type layout.members row := by
  simp only [starts_iff]
  constructor
  · rintro ⟨label, member, hmatched, hsingle, hfilled⟩
    refine ⟨label, member, hmatched, hsingle, ?_⟩
    rwa [← isBlank_congr (h _ hmatched.fieldColumn)]
  · rintro ⟨label, member, hmatched, hsingle, hfilled⟩
    refine ⟨label, member, hmatched, hsingle, ?_⟩
    rwa [isBlank_congr (h _ hmatched.fieldColumn)]

/-- Two records have the same end when the same rows after their first ones start another. -/
theorem recordEnd_congr {type : TypeTree} {labels labels' : List Layout} {start start' stop : Nat}
    (h : start ≤ stop) (h' : start' ≤ stop)
    (hstarts : ∀ row ≤ stop, (start < row ∧ Starts sheet type labels row) ↔
      (start' < row ∧ Starts other type labels' row)) :
    recordEnd sheet type labels start stop = recordEnd other type labels' start' stop := by
  obtain ⟨hrange, hnone, hnext⟩ := recordEnd_spec sheet type labels h
  symm
  refine recordEnd_eq ⟨?_, hrange.2⟩ (fun row h₁ h₂ hrow => ?_) fun hlt => ?_
  · by_contra hlt
    have hstart := hnext (by omega)
    have := ((hstarts _ (by omega)).1 ⟨by omega, hstart⟩).1
    omega
  · obtain ⟨h₃, hrow⟩ := (hstarts row (h₂.trans hrange.2)).2 ⟨h₁, hrow⟩
    exact hnone row h₃ h₂ hrow
  · exact ((hstarts _ hlt).1 ⟨by omega, hnext hlt⟩).2

theorem columnCells_congr {column row count : Nat}
    (h : ∀ r, row ≤ r → r < row + count → sheet.get? r column = other.get? r column) :
    columnCells sheet column row count = columnCells other column row count := by
  induction count generalizing row with
  | zero => rfl
  | succ count ih =>
    rw [columnCells, columnCells, h row (le_refl _) (by omega),
      ih fun r h₁ h₂ => h r (by omega) (by omega)]

/-- The rows of a range in which a column is blank are left out of the cells of the column. -/
theorem columnCells_skip {column row row' stop : Nat} (hle : row ≤ row') (hstop : row' ≤ stop + 1)
    (h : ∀ r, row ≤ r → r < row' → sheet.isBlank r column = true) :
    columnCells sheet column row (stop + 1 - row) =
      columnCells sheet column row' (stop + 1 - row') := by
  obtain ⟨count, rfl⟩ := Nat.exists_eq_add_of_le hle
  induction count generalizing row with
  | zero => rfl
  | succ count ih =>
    have hcount : stop + 1 - row = (stop + 1 - (row + 1)) + 1 := by omega
    rw [hcount, columnCells, Sheet.filter_get?_of_isBlank (h row (le_refl _) (by omega)),
      show row + (count + 1) = row + 1 + count by omega]
    exact ih (by omega) (by omega) fun r h₁ h₂ => h r (by omega) (by omega)

variable {coerce : ScalarType → Cell → Except ε α}

theorem readLeaf_congr {field : Field} {type : ScalarType} {column start stop : Nat}
    (hle : start ≤ stop)
    (h : ∀ row, start ≤ row → row ≤ stop → sheet.get? row column = other.get? row column) :
    readLeaf coerce sheet field type column start stop =
      readLeaf coerce other field type column start stop := by
  rw [readLeaf, readLeaf, h start (le_refl _) hle,
    columnCells_congr fun row h₁ h₂ => h row h₁ (by omega)]

/-- Two records have the same fields, or fail alike, when label by label the field has the same value
or fails alike. -/
theorem related_readFields_of_forall₂ {ε' : Type} {R : ε → ε' → Prop}
    {coerce' : ScalarType → Cell → Except ε' α} {type : TypeTree} {labels labels' : List Layout}
    {start stop start' stop' : Nat}
    (h : List.Forall₂ (fun label label' => label'.name = label.name ∧
      ∀ member, type.member? label.name = some member →
        Related R Eq (readField coerce sheet member label start stop)
          (readField coerce' other member label' start' stop')) labels labels')
    (fields : Entries (Extracted α)) :
    Related R Eq (readFields coerce sheet type labels start stop fields)
      (readFields coerce' other type labels' start' stop' fields) := by
  induction h generalizing fields with
  | nil =>
    rw [readFields, readFields]
    exact .ok rfl
  | @cons label label' _ _ hlabel _ ih =>
    obtain ⟨hname, hread⟩ := hlabel
    cases hmember : type.member? label.name with
    | none =>
      rw [readFields_cons_of_none hmember, readFields_cons_of_none (hname ▸ hmember)]
      exact ih fields
    | some member =>
      rw [readFields_cons hmember, readFields_cons (hname ▸ hmember)]
      refine (hread member hmember).bind ?_
      rintro value _ rfl
      exact ih _

/-- Two records have the same fields, or fail alike, when each field has the same value or fails
alike. -/
theorem related_readFields {ε' : Type} {R : ε → ε' → Prop}
    {coerce' : ScalarType → Cell → Except ε' α} {type : TypeTree} {labels : List Layout}
    {start stop start' stop' : Nat}
    (h : ∀ label ∈ labels, ∀ member, type.member? label.name = some member →
      Related R Eq (readField coerce sheet member label start stop)
        (readField coerce' other member label start' stop'))
    (fields : Entries (Extracted α)) :
    Related R Eq (readFields coerce sheet type labels start stop fields)
      (readFields coerce' other type labels start' stop' fields) :=
  related_readFields_of_forall₂
    (List.forall₂_same.2 fun label hlabel => ⟨rfl, h label hlabel⟩) fields

/-- Records have the same fields when each field has the same value. -/
theorem readFields_congr {type : TypeTree} {labels : List Layout} {start stop start' stop' : Nat}
    (h : ∀ label ∈ labels, ∀ member, type.member? label.name = some member →
      readField coerce sheet member label start stop =
        readField coerce other member label start' stop')
    (fields : Entries (Extracted α)) :
    readFields coerce sheet type labels start stop fields =
      readFields coerce other type labels start' stop' fields :=
  (related_readFields (fun label hmem member hmember =>
    .of_eq (fun _ => rfl) (h label hmem member hmember)) fields).eq

/-- A record has no fields when none has a value. -/
theorem readFields_of_none {type : TypeTree} {labels : List Layout} {start stop : Nat}
    (h : ∀ label ∈ labels, ∀ member, type.member? label.name = some member →
      readField coerce sheet member label start stop = .ok none)
    (fields : Entries (Extracted α)) :
    readFields coerce sheet type labels start stop fields = .ok fields := by
  induction labels generalizing fields with
  | nil => rw [readFields]
  | cons label labels ih =>
    have ih' := ih fun inner hinner => h inner (List.mem_cons_of_mem _ hinner)
    cases hmember : type.member? label.name with
    | none => rw [readFields_cons_of_none hmember, ih']
    | some member =>
      rw [readFields_cons hmember, h label List.mem_cons_self member hmember]
      exact ih' fields

section Collect

variable {isBlank isBlank' : Nat → Bool} {read read' : Nat → Except ε (Entries (Extracted α) × Nat)}

theorem collect_of_isBlank {row stop : Nat} (hrow : row ≤ stop) (h : isBlank row = true) :
    collect isBlank read row stop = collect isBlank read (row + 1) stop := by
  rw [collect, if_neg (by omega), if_pos h]

theorem collect_of_filled {row stop : Nat} (hrow : row ≤ stop) (h : isBlank row = false) :
    collect isBlank read row stop = (do
      let (fields, last) ← read row
      let rest ← collect isBlank read (max row last + 1) stop
      return (recordOf fields).toList ++ rest) := by
  rw [collect, if_neg (by omega), if_neg (by simp [h])]

/-- **Two walks collect the same records** when they read the same at each row and both pass over
any row that only one of them takes for blank. -/
theorem collect_congr {row stop : Nat} (hread : ∀ r, row ≤ r → r ≤ stop → read r = read' r)
    (hskip : ∀ r, row ≤ r → r ≤ stop → isBlank r ≠ isBlank' r →
      collect isBlank read r stop = collect isBlank read (r + 1) stop ∧
        collect isBlank' read' r stop = collect isBlank' read' (r + 1) stop) :
    collect isBlank read row stop = collect isBlank' read' row stop := by
  by_cases hlt : stop < row
  · rw [collect_of_lt hlt, collect_of_lt hlt]
  · have hrow : row ≤ stop := by omega
    have hnext : ∀ next, row < next →
        collect isBlank read next stop = collect isBlank' read' next stop := fun next hnext =>
      collect_congr (fun r h₁ h₂ => hread r (by omega) h₂) fun r h₁ h₂ => hskip r (by omega) h₂
    by_cases hsame : isBlank row = isBlank' row
    · cases hblank : isBlank row with
      | true =>
        rw [collect_of_isBlank hrow hblank, collect_of_isBlank hrow (hsame ▸ hblank)]
        exact hnext _ (Nat.lt_succ_self row)
      | false =>
        rw [collect_of_filled hrow hblank, collect_of_filled hrow (hsame ▸ hblank),
          hread row (le_refl _) hrow]
        refine congrArg _ (funext fun found => ?_)
        simp only [hnext (max row found.2 + 1) (by omega)]
    · obtain ⟨hfirst, hsecond⟩ := hskip row (le_refl _) hrow hsame
      rw [hfirst, hsecond]
      exact hnext _ (Nat.lt_succ_self row)
termination_by stop + 1 - row

end Collect

/-- An array of records holds the list of what is collected, a single record its fields. -/
theorem readField_composite (field : Field) (members : List TypeTree) (label : Layout)
    (start stop : Nat) :
    readField coerce sheet (.composite field members) label start stop =
      if field.isArray then
        (readRecords coerce sheet (.composite field members) label start stop).map listOf
      else
        (readRecord coerce sheet (.composite field members) label start stop).map fun record =>
          recordOf record.1 := rfl

/-! ## Sheets that are read alike -/

/-- Two sheets agree in the columns of the fields below a layout, and both walks pass over the rows
that are blank in one of them only. -/
structure Alike (coerce : ScalarType → Cell → Except ε α) (sheet other : Sheet) (type : TypeTree)
    (layout : Layout) (start stop : Nat) : Prop where
  cells {row column : Nat} : start ≤ row → row ≤ stop → FieldColumn type layout column →
    sheet.get? row column = other.get? row column
  skips {inner : TypeTree} {label : Layout} {row stop' : Nat} : Reaches type layout inner label →
    start ≤ row → row ≤ stop' → stop' ≤ stop →
    sheet.isBlankRow row label.first label.last ≠ other.isBlankRow row label.first label.last →
    readRecords coerce sheet inner label row stop' =
        readRecords coerce sheet inner label (row + 1) stop' ∧
      readRecords coerce other inner label row stop' =
        readRecords coerce other inner label (row + 1) stop'

namespace Alike

variable {type member : TypeTree} {layout label : Layout} {start stop start' stop' : Nat}

theorem below (h : Alike coerce sheet other type layout start stop)
    (hmatched : Matched type layout label member) :
    Alike coerce sheet other member label start stop where
  cells h₁ h₂ hcolumn := h.cells h₁ h₂ (hcolumn.below hmatched)
  skips hreach h₁ h₂ h₃ := h.skips (Reaches.step hmatched hreach) h₁ h₂ h₃

theorem within (h : Alike coerce sheet other type layout start stop) (hstart : start ≤ start')
    (hstop : stop' ≤ stop) : Alike coerce sheet other type layout start' stop' where
  cells h₁ h₂ := h.cells (hstart.trans h₁) (h₂.trans hstop)
  skips hreach h₁ h₂ h₃ := h.skips hreach (hstart.trans h₁) h₂ (h₃.trans hstop)

end Alike

/-- Records are collected alike when each record is read alike. -/
theorem Alike.readRecords_eq {type : TypeTree} {layout : Layout} {start stop : Nat}
    (h : Alike coerce sheet other type layout start stop)
    (hread : ∀ row, start ≤ row → row ≤ stop → readRecord coerce sheet type layout row stop =
      readRecord coerce other type layout row stop) :
    readRecords coerce sheet type layout start stop =
      readRecords coerce other type layout start stop :=
  collect_congr hread fun _ h₁ h₂ hne =>
    h.skips (Reaches.refl type layout) h₁ h₂ (le_refl stop) hne

/-- **From sheets that are alike the same record is read.** -/
theorem readRecord_congr (layout : Layout) : ∀ {type : TypeTree} {start stop : Nat},
    start ≤ stop → Alike coerce sheet other type layout start stop →
    readRecord coerce sheet type layout start stop =
      readRecord coerce other type layout start stop := by
  induction layout using Layout.induction with
  | step layout ih =>
    intro type start stop hle h
    obtain ⟨hrange, -, -⟩ := recordEnd_spec sheet type layout.members hle
    have hend : recordEnd sheet type layout.members start stop =
        recordEnd other type layout.members start stop :=
      recordEnd_congr hle hle fun row hrow => and_congr_right fun hlt =>
        starts_congr fun column hcolumn => h.cells hlt.le hrow hcolumn
    rw [readRecord_eq, readRecord_eq, ← hend]
    congr 1
    refine readFields_congr (fun label hmem member hmember => ?_) []
    have hmatched : Matched type layout label member := ⟨hmem, hmember⟩
    have hbelow := (h.below hmatched).within (le_refl start) hrange.2
    cases member with
    | leaf field scalar =>
      exact readLeaf_congr hrange.1 fun row h₁ h₂ =>
        h.cells h₁ (h₂.trans hrange.2) hmatched.fieldColumn
    | composite field members =>
      have hrecords := hbelow.readRecords_eq fun row h₁ h₂ =>
        ih label hmem h₂ (hbelow.within h₁ (le_refl _))
      rw [readField_composite, readField_composite, hrecords, ih label hmem hrange.1 hbelow]

/-- **From sheets that are alike the same records are read.** -/
theorem readRecords_congr {type : TypeTree} {layout : Layout} {start stop : Nat}
    (h : Alike coerce sheet other type layout start stop) :
    readRecords coerce sheet type layout start stop =
      readRecords coerce other type layout start stop :=
  h.readRecords_eq fun _ h₁ h₂ => readRecord_congr layout h₂ (h.within h₁ (le_refl stop))

theorem isBlankRow_congr {row first last : Nat}
    (h : ∀ column, sheet.get? row column = other.get? row column) :
    sheet.isBlankRow row first last = other.isBlankRow row first last := by
  rw [Bool.eq_iff_iff, Sheet.isBlankRow_eq_true, Sheet.isBlankRow_eq_true]
  simp only [fun column => isBlank_congr (h column)]

/-- Sheets with the same cells in some rows are alike in them. -/
theorem alike_of_rows {type : TypeTree} {layout : Layout} {start stop : Nat}
    (h : ∀ row column, start ≤ row → row ≤ stop → sheet.get? row column = other.get? row column) :
    Alike coerce sheet other type layout start stop where
  cells h₁ h₂ _ := h _ _ h₁ h₂
  skips _ h₁ h₂ h₃ hne := absurd (isBlankRow_congr fun column => h _ column h₁ (h₂.trans h₃)) hne

end Extraction

/-! ## An example -/

/-- The rows below a header that ends before the greatest row number. -/
theorem Extraction.readTable_of_lt {α ε : Type} {coerce : ScalarType → Cell → Except ε α}
    {sheet : Sheet} {type : TypeTree} {layout : Layout} {headerRows : Nat}
    (h : headerRows < Literal.maxCount) :
    readTable coerce sheet type layout headerRows =
      readRecords coerce sheet type layout (headerRows + 1)
        (max sheet.maxRow (headerRows + 1)) := by
  rw [readTable, Nat.mod_eq_of_lt (Nat.succ_lt_succ h)]

namespace Stock

/-- A text in a cell. -/
def cell (row column : Nat) (text : String) : Cell := ⟨row, column, .sharedString, text⟩

/-- A field of texts. -/
def field (name : String) : TypeTree := .leaf { name } .string

/-- The size of a piece: a record of its own. -/
def size : TypeTree := .composite { name := "size" } [field "width", field "depth"]

/-- The pieces of an item. -/
def pieces : TypeTree := .composite { name := "pieces", isArray := true } [field "code", size]

/-- The tags of an item. -/
def tags : TypeTree := .leaf { name := "tags", isArray := true } .string

/-- Items in stock, with their pieces and tags. -/
def type : TypeTree :=
  .composite { name := TypeTree.rootName, isArray := true } [field "id", pieces, tags]

/-- The labels of the table. The column of `memo` belongs to no field. -/
def header : List Cell :=
  [cell 1 1 "id", cell 1 2 "pieces", cell 1 6 "tags", cell 2 2 "code", cell 2 3 "size",
    cell 2 5 "memo", cell 3 3 "width", cell 3 4 "depth"]

/-- The sheet with some rows below the labels. -/
def sheet (rows : List Cell) : Sheet := Sheet.ofCells "stock.xlsx" "Stock" (header ++ rows)

/-- A label of one column. -/
def label (name : String) (column : Nat) : Layout := ⟨name, column, column, []⟩

def sizeLabel : Layout := ⟨"size", 3, 4, [label "width" 3, label "depth" 4]⟩

def piecesLabel : Layout := ⟨"pieces", 2, 5, [label "code" 2, sizeLabel, label "memo" 5]⟩

/-- The layout of the labels. -/
def layout : Layout :=
  ⟨TypeTree.rootName, 1, 6, [label "id" 1, piecesLabel, label "tags" 6]⟩

/-- What holds of the seven fields of the table holds of all. -/
theorem forall_fields {P : TypeTree → Layout → Layout → TypeTree → Prop}
    (hid : P type layout (label "id" 1) (field "id"))
    (hpieces : P type layout piecesLabel pieces)
    (hcode : P pieces piecesLabel (label "code" 2) (field "code"))
    (hsize : P pieces piecesLabel sizeLabel size)
    (hwidth : P size sizeLabel (label "width" 3) (field "width"))
    (hdepth : P size sizeLabel (label "depth" 4) (field "depth"))
    (htags : P type layout (label "tags" 6) tags) :
    Extraction.Throughout P type layout := by
  have hleaf : ∀ name column field,
      Extraction.Throughout P (.leaf field .string) (label name column) := fun _ _ _ =>
    .of_matching [] rfl (List.forall_mem_nil _)
  have hsizes : Extraction.Throughout P size sizeLabel := by
    refine .of_matching [(label "width" 3, _), (label "depth" 4, _)] rfl ?_
    rw [List.forall_mem_cons, List.forall_mem_singleton]
    exact ⟨⟨hwidth, hleaf _ _ _⟩, ⟨hdepth, hleaf _ _ _⟩⟩
  have hinner : Extraction.Throughout P pieces piecesLabel := by
    refine .of_matching [(label "code" 2, _), (sizeLabel, size)] rfl ?_
    rw [List.forall_mem_cons, List.forall_mem_singleton]
    exact ⟨⟨hcode, hleaf _ _ _⟩, ⟨hsize, hsizes⟩⟩
  refine .of_matching [(label "id" 1, _), (piecesLabel, pieces), (label "tags" 6, _)] rfl ?_
  rw [List.forall_mem_cons, List.forall_mem_cons, List.forall_mem_singleton]
  exact ⟨⟨hid, hleaf _ _ _⟩, ⟨hpieces, hinner⟩, ⟨htags, hleaf _ _ _⟩⟩

/-- An item with two pieces and two tags, and one with a piece that has no width. -/
def items : List Cell :=
  [cell 4 1 "a", cell 4 2 "x", cell 4 3 "1", cell 4 4 "2", cell 4 6 "red", cell 5 6 "blue",
    cell 6 2 "y", cell 6 3 "3", cell 7 1 "b", cell 7 2 "z", cell 7 4 "4"]

def value (text : String) : Extracted Scalar := .scalar (.string text)

/-- The first of the items. -/
def firstItem : Extracted Scalar :=
  .record [("id", value "a"),
    ("pieces", .list [
      .record [("code", value "x"), ("size", .record [("width", value "1"), ("depth", value "2")])],
      .record [("code", value "y"), ("size", .record [("width", value "3")])]]),
    ("tags", .list [value "red", value "blue"])]

/-- The second of the items. -/
def secondItem : Extracted Scalar :=
  .record [("id", value "b"),
    ("pieces", .list [.record [("code", value "z"), ("size", .record [("depth", value "4")])]])]

theorem covers_layout : layout.covers "" type = .ok () := by cbv

/-- A table with these labels is extracted by reading its records. -/
theorem extractTable_sheet {rows : List Cell} {records : List (Extracted Scalar)} (last : Nat)
    (hlayout : Layout.ofSheet (sheet rows) 3 = .ok layout) (hlast : (sheet rows).maxRow = last)
    (hle : 4 ≤ last)
    (hread : Extraction.readRecords (coerceIn (sheet rows)) (sheet rows) type layout 4 last =
      .ok records) : extractTable (sheet rows) type = .ok records := by
  refine extractTable_eq_ok hlayout covers_layout ?_
  rw [Extraction.readTable_of_lt (by decide), hlast,
    show type.maxDepth + 1 = 4 from rfl, Nat.max_eq_left hle]
  exact hread

set_option maxRecDepth 10000 in
theorem extractTable_items : extractTable (sheet items) type = .ok [firstItem, secondItem] :=
  extractTable_sheet 7 (by cbv) (by cbv) (by decide) (by cbv)

end Stock

end TableExport
