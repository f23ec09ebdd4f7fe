import TableExport.Proofs.Table.Keys
import TableExport.Proofs.Table.Rearranged

/-!
# The order of the columns

Blocks of columns may be put in another order, with all that is below them: a table is read from the
one sheet exactly if it is read from the other one, and its rows hold the same fields with the same
values (`extractTable_rearranged`). The keys of a row follow the columns; what is inside a field is
not touched at all.

Below a label of the first header row both walks look at the same cells in other columns
(`related_readRecord_copies`). In a row of the table, the last row of a record is a minimum over its
fields, and each field is read for itself, so that their order decides about the keys only
(`related_mapM_perm`, `readFields_eq_mapM`).
-/

namespace TableExport

open Layout

/-! ## Cells in other columns -/

namespace Move

/-- The cells of a block stand in the columns of the moved block, and nothing is cut off. -/
structure Holds (move : Move) (columns : Nat → Nat) (sheet other : Sheet) : Prop where
  get?_eq {row column column' : Nat} : move.first ≤ column → column ≤ move.last →
    move.first + column' = move.first' + column →
    other.get? row column' = (sheet.get? row column).map (Cell.moveColumn columns)
  get?_cut {row column : Nat} : move.first ≤ column → column ≤ move.last →
    move.first + move.last' < move.first' + column → sheet.get? row column = none

namespace Holds

variable {move : Move} {columns : Nat → Nat} {sheet other : Sheet} {column column' : Nat}

theorem isBlank_eq (h : move.Holds columns sheet other) (hfirst : move.first ≤ column)
    (hlast : column ≤ move.last) (hcolumn : move.first + column' = move.first' + column)
    (row : Nat) : other.isBlank row column' = sheet.isBlank row column := by
  rw [Sheet.isBlank, Sheet.isBlank, h.get?_eq hfirst hlast hcolumn, Option.map_map]
  rfl

theorem filter_get? (h : move.Holds columns sheet other) (hfirst : move.first ≤ column)
    (hlast : column ≤ move.last) (hcolumn : move.first + column' = move.first' + column)
    (row : Nat) : (other.get? row column').filter (!·.isBlank) =
      ((sheet.get? row column).filter (!·.isBlank)).map (Cell.moveColumn columns) := by
  rw [h.get?_eq hfirst hlast hcolumn, Option.filter_map]
  rfl

/-- A row is blank under a label exactly if it is blank under its copy. -/
theorem isBlankRow_eq (h : move.Holds columns sheet other) {label label' : Layout}
    (hlabel : move.Copies label label') (row : Nat) :
    other.isBlankRow row label'.first label'.last =
      sheet.isBlankRow row label.first label.last := by
  obtain ⟨-, hfirst, -, hlast, hfirst', hlast', -⟩ := hlabel
  rw [Bool.eq_iff_iff, Sheet.isBlankRow_eq_true, Sheet.isBlankRow_eq_true]
  constructor
  · intro hblank column h₁ h₂
    by_cases hcut : move.first + move.last' < move.first' + column
    · exact Sheet.isBlank_of_get?_eq_none (h.get?_cut (by omega) (by omega) hcut)
    · have hcolumn : move.first + (move.first' + column - move.first) = move.first' + column := by
        omega
      rw [← h.isBlank_eq (by omega) (by omega) hcolumn]
      exact hblank _ (by omega) (by omega)
  · intro hblank column' h₁ h₂
    have hcolumn : move.first + column' = move.first' + (move.first + column' - move.first') := by
      omega
    rw [h.isBlank_eq (by omega) (by omega) hcolumn]
    exact hblank _ (by omega) (by omega)

end Holds

end Move

namespace Extraction

variable {α ε ε' : Type} {R : ε → ε' → Prop} {coerce : ScalarType → Cell → Except ε α}
  {coerce' : ScalarType → Cell → Except ε' α} {move : Move} {columns : Nat → Nat}
  {sheet other : Sheet}

/-- Two ways to read cells that make the same of a cell in its old and in its new column. -/
def ReadsAcross (R : ε → ε' → Prop) (columns : Nat → Nat)
    (coerce : ScalarType → Cell → Except ε α) (coerce' : ScalarType → Cell → Except ε' α) : Prop :=
  ∀ type cell, Related R Eq (coerce type cell) (coerce' type (cell.moveColumn columns))

theorem columnCells_moveColumn (h : move.Holds columns sheet other) {column column' : Nat}
    (hfirst : move.first ≤ column) (hlast : column ≤ move.last)
    (hcolumn : move.first + column' = move.first' + column) (row count : Nat) :
    columnCells other column' row count =
      (columnCells sheet column row count).map (Cell.moveColumn columns) := by
  induction count generalizing row with
  | zero => rfl
  | succ count ih =>
    rw [columnCells, columnCells, h.filter_get? hfirst hlast hcolumn, ih]
    cases (sheet.get? row column).filter (!·.isBlank) <;> rfl

theorem related_readLeaf_across (h : move.Holds columns sheet other)
    (hcoerce : ReadsAcross R columns coerce coerce') {column column' : Nat}
    (hfirst : move.first ≤ column) (hlast : column ≤ move.last)
    (hcolumn : move.first + column' = move.first' + column) (field : Field) (type : ScalarType)
    (start stop : Nat) :
    Related R Eq (readLeaf coerce sheet field type column start stop)
      (readLeaf coerce' other field type column' start stop) := by
  rw [readLeaf, readLeaf, columnCells_moveColumn h hfirst hlast hcolumn,
    h.filter_get? hfirst hlast hcolumn]
  split
  · refine (Related.mapM fun cell _ => hcoerce type cell).bind ?_
    rintro values _ rfl
    exact .ok rfl
  · cases (sheet.get? start column).filter (!·.isBlank) with
    | none => exact .ok rfl
    | some cell => exact (hcoerce type cell).map fun a b hab => by rw [hab]

/-- **Records are collected side by side** when row by row the same rows are blank and what is read
is related. -/
theorem related_collect_of_rows {T : Extracted α → Extracted α → Prop}
    {isBlank isBlank' : Nat → Bool}
    {read : Nat → Except ε (Entries (Extracted α) × Nat)}
    {read' : Nat → Except ε' (Entries (Extracted α) × Nat)} {row stop : Nat}
    (hblank : ∀ row, isBlank' row = isBlank row)
    (hread : ∀ row ≤ stop, Related R (fun a b =>
        List.Forall₂ T (recordOf a.1).toList (recordOf b.1).toList ∧ a.2 = b.2)
      (read row) (read' row)) :
    Related R (List.Forall₂ T) (collect isBlank read row stop)
      (collect isBlank' read' row stop) := by
  by_cases hlt : stop < row
  · rw [collect_of_lt hlt, collect_of_lt hlt]
    exact .ok .nil
  · have hrow := Nat.le_of_not_lt hlt
    have hnext : ∀ next, row < next →
        Related R (List.Forall₂ T) (collect isBlank read next stop)
          (collect isBlank' read' next stop) :=
      fun next _ => related_collect_of_rows hblank hread
    cases hfilled : isBlank row with
    | true =>
      rw [collect_of_isBlank hrow hfilled, collect_of_isBlank hrow ((hblank row).trans hfilled)]
      exact hnext _ (Nat.lt_succ_self row)
    | false =>
      rw [collect_of_filled hrow hfilled, collect_of_filled hrow ((hblank row).trans hfilled)]
      refine (hread row hrow).bind ?_
      rintro ⟨fields, last⟩ ⟨fields', last'⟩ ⟨hfields, rfl⟩
      refine (hnext (max row last + 1) (by omega)).bind fun rest rest' hrest => ?_
      exact .ok (List.rel_append hfields hrest)
termination_by stop + 1 - row

theorem starts_copies {R : Layout → Layout → Prop} {type : TypeTree} {labels labels' : List Layout}
    {row : Nat} (h : List.Forall₂ R labels labels')
    (hlabel : ∀ label label', R label label' → label'.name = label.name ∧
      other.isBlank row label'.first = sheet.isBlank row label.first) :
    Starts sheet type labels row ↔ Starts other type labels' row := by
  induction h with
  | nil => simp [Starts]
  | cons hfirst _ ih =>
    obtain ⟨hname, hblank⟩ := hlabel _ _ hfirst
    rw [starts_cons, @starts_cons other, ih]
    simp [Starts, hname, hblank]

/-- Under a label and its copy a field has the same value, if the same records are read. -/
theorem related_readField_copies (h : move.Holds columns sheet other)
    (hcoerce : ReadsAcross R columns coerce coerce') {label label' : Layout}
    (hlabel : move.Copies label label') {member : TypeTree} {start stop : Nat} (hle : start ≤ stop)
    (hrecord : ∀ row ≤ stop, Related R Eq (readRecord coerce sheet member label row stop)
      (readRecord coerce' other member label' row stop)) :
    Related R Eq (readField coerce sheet member label start stop)
      (readField coerce' other member label' start stop) := by
  cases member with
  | leaf field scalar =>
    obtain ⟨-, hfirst, hlast, -, hcolumn, -⟩ := hlabel
    exact related_readLeaf_across h hcoerce hfirst hlast hcolumn field scalar start stop
  | composite field members =>
    rw [readField_composite, readField_composite]
    split
    · have hrecords : Related R (List.Forall₂ Eq)
          (readRecords coerce sheet (.composite field members) label start stop)
          (readRecords coerce' other (.composite field members) label' start stop) := by
        refine related_collect_of_rows (h.isBlankRow_eq hlabel) fun row hrow => ?_
        refine (hrecord row hrow).mono (fun _ _ => id) fun a b hab => ?_
        rw [hab]
        exact ⟨List.forall₂_same.2 fun _ _ => rfl, rfl⟩
      refine hrecords.map fun items items' hitems => ?_
      rw [List.forall₂_eq_eq_eq] at hitems
      rw [hitems]
    · exact (hrecord start hle).map fun a b hab => by rw [hab]

/-- **Under a label and its copy the same record is read**, and it ends in the same row. -/
theorem related_readRecord_copies (h : move.Holds columns sheet other)
    (hcoerce : ReadsAcross R columns coerce coerce') (label : Layout) :
    ∀ {label' : Layout} {type : TypeTree} {start stop : Nat}, move.Copies label label' →
      start ≤ stop →
      Related R Eq (readRecord coerce sheet type label start stop)
        (readRecord coerce' other type label' start stop) := by
  induction label using Layout.induction with
  | step label ih =>
    rintro label' type start stop ⟨-, -, -, -, -, -, hmembers⟩ hle
    have hend : recordEnd sheet type label.members start stop =
        recordEnd other type label'.members start stop := by
      refine recordEnd_congr hle hle fun row _ => and_congr_right fun _ =>
        starts_copies hmembers fun inner inner' hinner => ?_
      obtain ⟨hname, hfirst, hlast, -, hcolumn, -⟩ := hinner
      exact ⟨hname, h.isBlank_eq hfirst hlast hcolumn row⟩
    have hrange := (recordEnd_spec sheet type label.members hle).1
    rw [readRecord_eq, readRecord_eq, ← hend]
    refine (related_readFields_of_forall₂ ?_ []).map fun a b hab => by rw [hab]
    refine ((List.forall₂_and_left _ _).2 ⟨ih, hmembers⟩).imp fun inner inner' hinner => ?_
    obtain ⟨hread, hcopies⟩ := hinner
    obtain ⟨hname, -⟩ := id hcopies
    exact ⟨hname, fun member _ => related_readField_copies h hcoerce hcopies hrange.1
      fun row hrow => hread hcopies hrow⟩

/-! ## Fields in another order -/

section Order

variable {type : TypeTree} {label : Layout} {labels labels' : List Layout} {start stop : Nat}

/-- The entry that a label gives to a record, if it gives one. -/
def readEntry (coerce : ScalarType → Cell → Except ε α) (sheet : Sheet) (type : TypeTree)
    (start stop : Nat) (label : Layout) : Except ε (Entries (Extracted α)) :=
  match type.member? label.name with
  | none => .ok []
  | some member => (readField coerce sheet member label start stop).map fun value =>
    value.toList.map (label.name, ·)

theorem readFields_cons_eq (hdistinct : ((label :: labels).map Layout.name).Nodup) :
    readFields coerce sheet type (label :: labels) start stop [] = do
      let entry ← readEntry coerce sheet type start stop label
      let rest ← readFields coerce sheet type labels start stop []
      return entry ++ rest := by
  rw [readEntry]
  cases hmember : type.member? label.name with
  | none =>
    rw [readFields_cons_of_none hmember]
    simp only [bind, Except.bind, List.nil_append]
    cases readFields coerce sheet type labels start stop [] <;> rfl
  | some member =>
    rw [readFields_cons_of_distinct hdistinct hmember]
    dsimp only
    cases readField coerce sheet member label start stop <;> rfl

/-- **Under labels with different names the order of the labels decides about the order of the
entries only.** -/
theorem related_readFields_perm (hperm : labels.Perm labels')
    (hdistinct : (labels.map Layout.name).Nodup) :
    Related (fun _ _ => True) List.Perm (readFields coerce sheet type labels start stop [])
      (readFields coerce sheet type labels' start stop []) := by
  induction hperm with
  | nil =>
    rw [readFields]
    exact .ok .nil
  | @cons label labels labels' hperm ih =>
    have hdistinct' := ((hperm.cons label).map Layout.name).nodup_iff.1 hdistinct
    rw [readFields_cons_eq hdistinct, readFields_cons_eq hdistinct']
    cases readEntry coerce sheet type start stop label with
    | error e => exact .error trivial
    | ok entry =>
      exact (ih hdistinct.of_cons).bind fun rest rest' hrest => .ok (hrest.append_left _)
  | swap first second labels =>
    have hdistinct' := ((List.Perm.swap first second labels).map Layout.name).nodup_iff.1 hdistinct
    rw [readFields_cons_eq hdistinct, readFields_cons_eq hdistinct.of_cons,
      readFields_cons_eq hdistinct', readFields_cons_eq hdistinct'.of_cons]
    cases readEntry coerce sheet type start stop first with
    | error e =>
      cases readEntry coerce sheet type start stop second <;> exact .error trivial
    | ok entry =>
      cases readEntry coerce sheet type start stop second with
      | error e => exact .error trivial
      | ok other =>
        cases readFields coerce sheet type labels start stop [] with
        | error e => exact .error trivial
        | ok rest =>
          refine .ok ?_
          rw [← List.append_assoc, ← List.append_assoc]
          exact List.perm_append_comm.append_right rest
  | trans hperm _ ih ih' =>
    have hmiddle := (hperm.map Layout.name).nodup_iff.1 hdistinct
    exact ((ih hdistinct).trans (ih' hmiddle)).mono (fun _ _ _ => trivial)
      fun _ _ ⟨_, hfirst, hsecond⟩ => hfirst.trans hsecond

/-- The keys of a record stand in the order of labels with different names. -/
theorem keys_sublist_of_readFields {fields : Entries (Extracted α)}
    (h : readFields coerce sheet type labels start stop [] = .ok fields)
    (hdistinct : (labels.map Layout.name).Nodup) :
    fields.keys.Sublist (labels.map Layout.name) := by
  have hsublist := (List.filter_sublist (p := gives coerce sheet type start stop)
    (l := labels)).map Layout.name
  rw [keys_readFields h List.nodup_nil, Entries.keys_nil, List.nil_append,
    eraseDups_of_nodup (hdistinct.sublist hsublist)]
  exact hsublist

end Order

end Extraction

/-! ## Layouts with copies in another order -/

/-- The labels under a root are found as copies under another one, in another order, and the cells
of each of them stand in the columns of its copy. -/
structure Layout.Permuted (columns : Nat → Nat) (sheet other : Sheet) (order : List Layout)
    (root root' : Layout) : Prop where
  perm : order.Perm root.members
  copies : List.Forall₂ (fun label label' => ∃ move : Move, move.Holds columns sheet other ∧
    move.Copies label label') order root'.members
  distinct : (root.members.map Layout.name).Nodup
  isBlankRow_eq (row : Nat) :
    other.isBlankRow row root'.first root'.last = sheet.isBlankRow row root.first root.last

namespace Layout

variable {columns : Nat → Nat} {sheet other : Sheet} {order : List Layout}
  {root root' label label' : Layout} {labels labels' : List Layout}

/-- Under a name, copies are found for labels. -/
theorem rel_find?_copies {R : Layout → Layout → Prop} (hname : ∀ label label', R label label' →
    label'.name = label.name) (h : List.Forall₂ R labels labels') (key : String) :
    Option.Rel R (labels.find? (·.name == key)) (labels'.find? (·.name == key)) := by
  induction h with
  | nil => exact .none
  | @cons label label' _ _ hfirst _ ih =>
    rw [List.find?_cons, List.find?_cons, hname _ _ hfirst]
    cases label.name == key with
    | true => exact .some hfirst
    | false => exact ih

mutual

/-- A label covers the fields that its copy covers. -/
theorem covers_copies {move : Move} : ∀ (tree : TypeTree) {label label' : Layout} (path : String),
    move.Copies label label' → label'.covers path tree = label.covers path tree
  | .leaf .., _, _, _, _ => by rw [covers, covers]
  | .composite _ members, _, _, path, h => by
    rw [covers, covers]
    obtain ⟨-, -, -, -, -, -, hmembers⟩ := h
    exact coversAll_copies members path
      (rel_find?_copies (fun _ _ ⟨_, h⟩ => h.name_eq) (hmembers.imp fun _ _ h => ⟨_, h⟩))

theorem coversAll_copies : ∀ (members : List TypeTree) {label label' : Layout} (path : String),
    (∀ key, Option.Rel (fun label label' => ∃ move : Move, move.Copies label label')
      (label.member? key) (label'.member? key)) →
    label'.coversAll path members = label.coversAll path members
  | [], _, _, _, _ => by rw [coversAll, coversAll]
  | member :: rest, label, label', path, h => by
    rw [coversAll, coversAll, coversAll_copies rest path h]
    have hmember := h member.name
    generalize label.member? member.name = found at hmember
    generalize label'.member? member.name = found' at hmember
    cases hmember with
    | none => rfl
    | some hcopies =>
      obtain ⟨move, hcopies⟩ := hcopies
      simp only [covers_copies member _ hcopies]

end

/-- **Layouts with copies in another order cover the same fields.** -/
theorem Permuted.covers_eq (h : Permuted columns sheet other order root root') (type : TypeTree)
    (path : String) : root'.covers path type = root.covers path type := by
  cases type with
  | leaf => rw [covers, covers]
  | composite field members =>
    rw [covers, covers]
    refine coversAll_copies members path fun key => ?_
    rw [member?, Entries.find?_perm h.distinct h.perm.symm]
    refine rel_find?_copies ?_ (h.copies.imp ?_) key
    · rintro label label' ⟨move, hcopies⟩
      exact hcopies.name_eq
    · rintro label label' ⟨move, -, hcopies⟩
      exact ⟨move, hcopies⟩

end Layout

/-! ## Rows with their keys in another order -/

/-- Two records have the same entries. The keys of each stand in the order of some names. -/
def Extracted.SameEntries {α : Type} (names names' : List String) : Extracted α → Extracted α → Prop
  | .record fields, .record fields' =>
    fields.Perm fields' ∧ (Entries.keys fields).Sublist names ∧
      (Entries.keys fields').Sublist names'
  | _, _ => False

namespace Extraction

variable {α ε ε' : Type} {R : ε → ε' → Prop} {coerce : ScalarType → Cell → Except ε α}
  {coerce' : ScalarType → Cell → Except ε' α} {columns : Nat → Nat} {sheet other : Sheet}
  {order : List Layout} {root root' : Layout} {type : TypeTree} {start stop : Nat}

theorem recordEnd_permuted (h : Permuted columns sheet other order root root')
    (hle : start ≤ stop) : recordEnd sheet type root.members start stop =
      recordEnd other type root'.members start stop := by
  refine recordEnd_congr hle hle fun row _ => and_congr_right fun _ => ?_
  have hperm : Starts sheet type root.members row ↔ Starts sheet type order row := by
    simp only [Starts, h.perm.mem_iff]
  refine hperm.trans (starts_copies h.copies ?_)
  rintro label label' ⟨move, hholds, hcopies⟩
  obtain ⟨hname, hfirst, hlast, -, hcolumn, -⟩ := hcopies
  exact ⟨hname, hholds.isBlank_eq hfirst hlast hcolumn row⟩

/-- **A row of the table has the same entries in both sheets**, and ends in the same row. -/
theorem related_readRecord_permuted (h : Permuted columns sheet other order root root')
    (hcoerce : ReadsAcross R columns coerce coerce') (hle : start ≤ stop) :
    Related (fun _ _ => True) (fun a b =>
        (a.1.Perm b.1 ∧ a.1.keys.Sublist (root.members.map Layout.name) ∧
          b.1.keys.Sublist (order.map Layout.name)) ∧ a.2 = b.2)
      (readRecord coerce sheet type root start stop)
      (readRecord coerce' other type root' start stop) := by
  have hrange := (recordEnd_spec sheet type root.members hle).1
  rw [readRecord_eq, readRecord_eq, ← recordEnd_permuted h hle]
  generalize recordEnd sheet type root.members start stop = last at hrange
  have hdistinct := (h.perm.map Layout.name).nodup_iff.2 h.distinct
  have hnames : order.map Layout.name = root'.members.map Layout.name := by
    have hforall : List.Forall₂ Eq (order.map Layout.name) (root'.members.map Layout.name) :=
      List.forall₂_map_left_iff.2 (List.forall₂_map_right_iff.2
        (h.copies.imp fun _ _ ⟨_, _, hlabel⟩ => hlabel.name_eq.symm))
    rwa [List.forall₂_eq_eq_eq] at hforall
  have hcopies : Related R Eq (readFields coerce sheet type order start last [])
      (readFields coerce' other type root'.members start last []) := by
    refine related_readFields_of_forall₂ (h.copies.imp ?_) []
    rintro label label' ⟨move, hholds, hlabel⟩
    exact ⟨hlabel.name_eq, fun member _ => related_readField_copies hholds hcoerce hlabel hrange.1
      fun row hrow => related_readRecord_copies hholds hcoerce label hlabel hrow⟩
  have hfields : Related (fun _ _ => True) List.Perm
      (readFields coerce sheet type root.members start last [])
      (readFields coerce' other type root'.members start last []) :=
    ((related_readFields_perm h.perm.symm h.distinct).trans hcopies).mono (fun _ _ _ => trivial)
      fun _ _ ⟨_, hperm, heq⟩ => heq ▸ hperm
  refine (hfields.imp_of_ok fun a b ha hb hperm => ?_).map fun a b hab => ⟨hab, rfl⟩
  exact ⟨hperm, keys_sublist_of_readFields ha h.distinct,
    hnames ▸ keys_sublist_of_readFields hb (hnames ▸ hdistinct)⟩

/-- Without entries there is no record in either sheet. -/
theorem forall₂_recordOf {names names' : List String} {fields fields' : Entries (Extracted α)}
    (h : fields.Perm fields' ∧ fields.keys.Sublist names ∧ fields'.keys.Sublist names') :
    List.Forall₂ (Extracted.SameEntries names names') (recordOf fields).toList
      (recordOf fields').toList := by
  cases fields with
  | nil =>
    rw [List.nil_perm.1 h.1]
    exact .nil
  | cons entry fields =>
    cases fields' with
    | nil => exact absurd h.1.length_eq (Nat.succ_ne_zero _)
    | cons entry' fields' => exact .cons h .nil

/-- **The rows below the headers are read side by side.** -/
theorem related_readTable_permuted (h : Permuted columns sheet other order root root')
    (hcoerce : ReadsAcross R columns coerce coerce') (hrows : other.maxRow = sheet.maxRow)
    (headerRows : Nat) :
    Related (fun _ _ => True)
      (List.Forall₂ (Extracted.SameEntries (root.members.map Layout.name) (order.map Layout.name)))
      (readTable coerce sheet type root headerRows)
      (readTable coerce' other type root' headerRows) := by
  rw [readTable, readTable, hrows]
  refine related_collect_of_rows h.isBlankRow_eq fun row hrow => ?_
  refine (related_readRecord_permuted h hcoerce hrow).mono (fun _ _ h => h) fun a b hab => ?_
  exact ⟨forall₂_recordOf hab.1, hab.2⟩

end Extraction

/-! ## Whole tables -/

namespace Layout

/-- The column in which the blocks under a root start. -/
def blockStart (root : Layout) : Nat :=
  match root.members with
  | [] => root.first
  | label :: _ => label.first

/-- Where the columns go when the blocks under a root are put in an order. -/
def rearranged (root : Layout) (order : List Layout) : Nat → Nat :=
  movedColumn (placed root.blockStart order)

variable {sheet other : Sheet} {headerRows start : Nat} {labels order : List Layout}
  {root : Layout} {place : Nat × Layout}

/-- In its place, a block has its cells. -/
theorem InBlocks.holds_ofPlace (h : InBlocks sheet headerRows start labels)
    (horder : order.Perm labels)
    (hsheet : sheet.Rearranged (movedColumn (placed start order)) other)
    (hplace : place ∈ placed start order) : (Move.ofPlace other.maxColumn place).Holds
      (movedColumn (placed start order)) sheet other where
  get?_eq hfirst hlast hcolumn := by
    rw [← h.movedColumn_eq horder hplace hfirst hlast hcolumn, hsheet.get?_move]
  get?_cut {row column} hfirst hlast hcut := by
    have hwidth : place.2.width = place.2.last + 1 - place.2.first := rfl
    simp only [Move.ofPlace] at hfirst hlast hcut
    have hmoved := h.movedColumn_eq horder hplace hfirst hlast
      (show place.2.first + (place.1 + (column - place.2.first)) = place.1 + column by omega)
    have hget := hsheet.get?_move row column
    cases hother : other.get? row (movedColumn (placed start order) column) with
    | none =>
      rw [hother] at hget
      exact Option.map_eq_none_iff.1 hget.symm
    | some cell =>
      have := hsheet.le_maxColumn' hother
      omega

/-- **The new header has the labels of the old one in their new order.** -/
theorem exists_permuted (fileName name : String) (cells : List Cell)
    (hlayout : Layout.ofSheet (Sheet.ofCells fileName name cells) headerRows = .ok root)
    (hrow : InFirstRow (Sheet.ofCells fileName name cells) root)
    (hdistinct : (root.members.map Layout.name).Nodup) (horder : order.Perm root.members) :
    (Sheet.ofCells fileName name cells).Rearranged (root.rearranged order)
        (Sheet.ofCells fileName name (cells.map (Cell.moveColumn (root.rearranged order)))) ∧
      ∃ root', Layout.ofSheet (Sheet.ofCells fileName name
          (cells.map (Cell.moveColumn (root.rearranged order)))) headerRows = .ok root' ∧
        Permuted (root.rearranged order) (Sheet.ofCells fileName name cells)
          (Sheet.ofCells fileName name (cells.map (Cell.moveColumn (root.rearranged order))))
          order root root' := by
  obtain ⟨hfirst, hlast, -⟩ := charted_ofSheet hlayout
  cases hmembers : root.members with
  | nil =>
    -- there is nothing to move
    obtain rfl : order = [] := List.perm_nil.1 (hmembers ▸ horder)
    have hid : root.rearranged [] = id := rfl
    have hcells : cells.map (Cell.moveColumn (root.rearranged [])) = cells := List.map_id cells
    have hsheet := Sheet.rearranged_ofCells fileName name cells Function.injective_id fun _ => id
    rw [← hid, hcells] at hsheet
    rw [hcells]
    refine ⟨hsheet, root, hlayout, horder, ?_, hdistinct, fun _ => rfl⟩
    rw [hmembers]
    exact .nil
  | cons label rest =>
    have hpos : 0 < headerRows := by
      refine Nat.pos_of_ne_zero ?_
      rintro rfl
      have hnone : headerPositions (Sheet.ofCells fileName name cells).maxColumn 0 = [] := by
        simp [headerPositions]
      rw [Layout.ofSheet, hnone] at hlayout
      cases hlayout
      cases hmembers
    have hblocks := inBlocks_ofSheet hlayout hpos hrow hmembers
    have hstart : root.blockStart = label.first := by rw [blockStart, hmembers]
    rw [rearranged, hstart]
    have hsheet := Sheet.rearranged_ofCells fileName name cells
      (movedColumn_injective hblocks.tiles horder) fun column hle =>
        Nat.le_of_lt_succ (((movedColumn_lt_iff hblocks.tiles horder column).2).2
          (Nat.lt_succ_of_le hle))
    obtain ⟨members, hlayout', hcopies⟩ := exists_ofSheet_rearranged hpos hlayout hblocks
      (hmembers ▸ List.cons_ne_nil _ _) horder hsheet
    refine ⟨hsheet, _, hlayout', horder, ?_, hdistinct, fun row => ?_⟩
    · have hholds := (List.forall₂_and_left _ _).2
        ⟨fun place hplace => hblocks.holds_ofPlace horder hsheet hplace, hcopies⟩
      exact forall₂_of_placed (hholds.imp fun place label' h => ⟨_, h.1, h.2⟩)
    · rw [hfirst, hlast]
      exact hsheet.isBlankRow_eq (one_le_movedColumn_iff hblocks.tiles horder hblocks.pos) row

end Layout

/-- **Column order does not matter beyond key order.** Where all labels under the root stand in the
first header row and have different names, their blocks of columns can be put in any order. The
table is extracted from the new sheet exactly if it is extracted from the old one, and then as many
rows are, one for one with the same entries; the keys of each row follow the labels in their
order. -/
theorem extractTable_rearranged (fileName name : String) (cells : List Cell) {type : TypeTree}
    {root : Layout} {order : List Layout}
    (hlayout : Layout.ofSheet (Sheet.ofCells fileName name cells) type.maxDepth = .ok root)
    (hrow : InFirstRow (Sheet.ofCells fileName name cells) root)
    (hdistinct : (root.members.map Layout.name).Nodup) (horder : order.Perm root.members) :
    ((∃ records, extractTable (Sheet.ofCells fileName name cells) type = .ok records) ↔
      ∃ records, extractTable (Sheet.ofCells fileName name
        (cells.map (Cell.moveColumn (root.rearranged order)))) type = .ok records) ∧
    ∀ records records', extractTable (Sheet.ofCells fileName name cells) type = .ok records →
      extractTable (Sheet.ofCells fileName name
        (cells.map (Cell.moveColumn (root.rearranged order)))) type = .ok records' →
      List.Forall₂ (Extracted.SameEntries (root.members.map Layout.name) (order.map Layout.name))
        records records' := by
  obtain ⟨hsheet, root', hlayout', hpermuted⟩ :=
    exists_permuted fileName name cells hlayout hrow hdistinct horder
  have hcoerce : Extraction.ReadsAcross (fun _ _ => True) (root.rearranged order)
      (coerceIn (Sheet.ofCells fileName name cells))
      (coerceIn (Sheet.ofCells fileName name
        (cells.map (Cell.moveColumn (root.rearranged order))))) := by
    intro type cell
    rw [coerceIn, coerceIn, Cell.coerce_congr type
      (a := cell.moveColumn (root.rearranged order)) (b := cell) rfl rfl]
    cases cell.coerce type with
    | ok value => exact .ok rfl
    | error => exact .error trivial
  have hrelated : Related (fun _ _ => True)
      (List.Forall₂ (Extracted.SameEntries (root.members.map Layout.name) (order.map Layout.name)))
      (extractTable (Sheet.ofCells fileName name cells) type)
      (extractTable (Sheet.ofCells fileName name
        (cells.map (Cell.moveColumn (root.rearranged order)))) type) := by
    have hread := @Extraction.related_readTable_permuted _ _ _ _ _ _ _ _ _ _ _ _ type hpermuted
      hcoerce hsheet.maxRow_eq type.maxDepth
    rw [extractTable, extractTable, hlayout, hlayout']
    simp only [bind, Except.bind, hpermuted.covers_eq]
    cases root.covers "" type with
    | error => exact .error trivial
    | ok => exact hread
  exact ⟨hrelated.exists_ok_iff, fun _ _ => hrelated.of_ok⟩

namespace Stock

open Layout

/-- The labels of the table with the list of tags first. -/
def turned : List Layout := [label "tags" 6, label "id" 1, piecesLabel]

example : (List.range' 1 7).map (layout.rearranged turned) = [2, 3, 4, 5, 6, 1, 7] := by decide

/-- The table with its list of tags to the left of the keys. -/
theorem extractTable_turnedColumns :
    (Layout.ofSheet (sheet items) type.maxDepth = .ok layout ∧ InFirstRow (sheet items) layout ∧
      (layout.members.map Layout.name).Nodup ∧ turned.Perm layout.members) ∧
    ∃ records, extractTable (Sheet.ofCells "stock.xlsx" "Stock"
        ((header ++ items).map (Cell.moveColumn (layout.rearranged turned)))) type = .ok records ∧
      List.Forall₂ (Extracted.SameEntries ["id", "pieces", "tags"] ["tags", "id", "pieces"])
        [firstItem, secondItem] records := by
  have hlayout : Layout.ofSheet (sheet items) type.maxDepth = .ok layout := by cbv
  have hrow : InFirstRow (sheet items) layout := by
    intro inner hinner
    rcases List.mem_cons.1 hinner with rfl | hinner
    · exact ⟨"id", by cbv, by decide⟩
    rcases List.mem_pair.1 hinner with rfl | rfl
    · exact ⟨"pieces", by cbv, by decide⟩
    · exact ⟨"tags", by cbv, by decide⟩
  have hdistinct : (layout.members.map Layout.name).Nodup := by decide
  have hperm : turned.Perm layout.members :=
    @List.perm_append_comm _ [label "tags" 6] [label "id" 1, piecesLabel]
  obtain ⟨hiff, hsame⟩ :=
    extractTable_rearranged "stock.xlsx" "Stock" (header ++ items) hlayout hrow hdistinct hperm
  obtain ⟨records, hrecords⟩ := hiff.1 ⟨_, extractTable_items⟩
  exact ⟨⟨hlayout, hrow, hdistinct, hperm⟩, records, hrecords,
    hsame _ _ extractTable_items hrecords⟩

end Stock

end TableExport
