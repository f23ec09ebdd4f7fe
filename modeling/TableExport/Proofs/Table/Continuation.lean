import TableExport.Proofs.Table.Comments
import TableExport.Proofs.Table.Places

/-!
# Rows that go on with a record

A record goes on until one of its single-valued fields has another value, each in the first column of
its label (`StartColumn`). What stands in other columns does not matter to its last row, so neither do
the columns of arrays (`ArrayColumn`), in which a record may take more rows
(`last_eq_of_arrayColumns`). A single-valued record may have an array in its first column, though, and
then the second value of the array ends the record around it (`Stock.readRecord_crates`).
-/

namespace TableExport

namespace Extraction

variable {α ε : Type} {coerce : ScalarType → Cell → Except ε α} {sheet other : Sheet}
  {type : TypeTree} {layout : Layout} {start stop : Nat}

/-- A column is the first one of a leaf that is an array, or lies under one. -/
def ArrayColumn (type : TypeTree) (layout : Layout) (column : Nat) : Prop :=
  ∃ outer around label member field scalar innerLabel, Reaches type layout outer around ∧
    Matched outer around label member ∧ member.isArray = true ∧
    Reaches member label (.leaf field scalar) innerLabel ∧ innerLabel.first = column

/-- A column is the first one of a single-valued field of a record. -/
def StartColumn (type : TypeTree) (layout : Layout) (column : Nat) : Prop :=
  ∃ label member, Matched type layout label member ∧ member.isArray = false ∧ label.first = column

theorem starts_iff_startColumn {row : Nat} : Starts sheet type layout.members row ↔
    ∃ column, StartColumn type layout column ∧ sheet.isBlank row column = false := by
  rw [starts_iff]
  constructor
  · rintro ⟨label, member, hmatched, hsingle, hfilled⟩
    exact ⟨label.first, ⟨label, member, hmatched, hsingle, rfl⟩, hfilled⟩
  · rintro ⟨_, ⟨label, member, hmatched, hsingle, rfl⟩, hfilled⟩
    exact ⟨label, member, hmatched, hsingle, hfilled⟩

/-- The last row of a record depends on the columns of its single-valued fields only. -/
theorem recordEnd_of_startColumns (hle : start ≤ stop)
    (hcells : ∀ row column, StartColumn type layout column →
      other.get? row column = sheet.get? row column) :
    recordEnd other type layout.members start stop =
      recordEnd sheet type layout.members start stop := by
  refine recordEnd_congr hle hle fun row _ => and_congr_right fun _ => ?_
  rw [starts_iff_startColumn, starts_iff_startColumn]
  exact exists_congr fun column => and_congr_right fun hcolumn => by
    rw [isBlank_congr (hcells row column hcolumn)]

/-- **The rows in which arrays go on belong to the record above them.** Let two sheets agree but in
the columns of arrays, and there too if a single-valued field of the record has the same first column.
Then the record ends in the same row in both; and if that is not the last row of all, some
single-valued field has a value in the next row. -/
theorem last_eq_of_arrayColumns (hle : start ≤ stop)
    (hcells : ∀ row column, ¬ (ArrayColumn type layout column ∧ ¬ StartColumn type layout column) →
      other.get? row column = sheet.get? row column)
    {fields fields' : Entries (Extracted α)} {last last' : Nat}
    {coerce' : ScalarType → Cell → Except ε α}
    (hread : readRecord coerce sheet type layout start stop = .ok (fields, last))
    (hread' : readRecord coerce' other type layout start stop = .ok (fields', last')) :
    last' = last ∧ (last < stop →
      ∃ column, StartColumn type layout column ∧ sheet.isBlank (last + 1) column = false) := by
  obtain ⟨rfl, -⟩ := last_of_readRecord hle hread
  obtain ⟨rfl, -⟩ := last_of_readRecord hle hread'
  refine ⟨recordEnd_of_startColumns hle fun row column hcolumn => ?_, fun hlt => ?_⟩
  · exact hcells row column fun h => h.2 hcolumn
  · exact starts_iff_startColumn.1 ((recordEnd_spec sheet type layout.members hle).2.2 hlt)

end Extraction

namespace Stock

open Extraction

theorem matched_code : Matched pieces piecesLabel (label "code" 2) (field "code") :=
  ⟨List.mem_cons_self, rfl⟩

/-- The codes of the pieces stand under an array, and no single-valued field of an item starts in
their column. -/
theorem arrayColumn_code : ArrayColumn type layout 2 ∧ ¬ StartColumn type layout 2 := by
  refine ⟨⟨type, layout, piecesLabel, pieces, { name := "code" }, .string, label "code" 2, .refl _ _,
    matched_pieces, rfl, matched_code.reaches, rfl⟩, ?_⟩
  rintro ⟨inner, member, ⟨hmem, hmember⟩, hsingle, hfirst⟩
  rw [layout, List.mem_cons, List.mem_cons, List.mem_singleton] at hmem
  rcases hmem with rfl | rfl | rfl
  · exact absurd hfirst (by decide)
  · cases hmember
    exact absurd hsingle (by decide)
  · exact absurd hfirst (by decide)

set_option maxRecDepth 10000 in
/-- One more piece in the second row of the first item leaves the item in its three rows. -/
theorem last_eq_of_arrayColumns_items :
    (∀ row column, ¬ (ArrayColumn type layout column ∧ ¬ StartColumn type layout column) →
      (sheet (items ++ [cell 5 2 "w"])).get? row column = (sheet items).get? row column) ∧
    ∃ fields fields' last', readRecord (coerceIn (sheet items)) (sheet items) type layout 4 7 =
        .ok (fields, 6) ∧
      readRecord (coerceIn (sheet items)) (sheet (items ++ [cell 5 2 "w"])) type layout 4 7 =
        .ok (fields', last') ∧ last' = 6 := by
  have hcells : ∀ row column,
      ¬ (ArrayColumn type layout column ∧ ¬ StartColumn type layout column) →
      (sheet (items ++ [cell 5 2 "w"])).get? row column = (sheet items).get? row column := by
    intro row column hcolumn
    rw [get?_sheet_concat, if_neg]
    rintro ⟨-, rfl⟩
    exact hcolumn arrayColumn_code
  obtain ⟨⟨fields, last⟩, hread, rfl⟩ : ∃ found,
      readRecord (coerceIn (sheet items)) (sheet items) type layout 4 7 = .ok found ∧
        found.2 = 6 := ⟨(_, 6), by cbv, rfl⟩
  obtain ⟨⟨fields', last'⟩, hread'⟩ : ∃ found,
      readRecord (coerceIn (sheet items)) (sheet (items ++ [cell 5 2 "w"])) type layout 4 7 =
        .ok found := ⟨(_, 6), by cbv⟩
  exact ⟨hcells, fields, fields', last', hread, hread',
    (last_eq_of_arrayColumns (by decide) hcells hread hread').1⟩

/-! ## A record that starts with an array -/

/-- An item in a crate with tags of its own. -/
def crated : TypeTree :=
  .composite { name := TypeTree.rootName, isArray := true }
    [.composite { name := "crate" } [tags, field "width"], field "id"]

def crateLabel : Layout := ⟨"crate", 1, 2, [label "tags" 1, label "width" 2]⟩

def cratedLayout : Layout := ⟨TypeTree.rootName, 1, 3, [crateLabel, label "id" 3]⟩

/-- The sheet of an item in a crate with some rows below the first row. -/
def cratedSheet (rows : List Cell) : Sheet :=
  Sheet.ofCells "stock.xlsx" "Crates" ([cell 1 1 "crate", cell 1 3 "id", cell 2 1 "tags",
    cell 2 2 "width", cell 3 1 "red", cell 3 2 "1", cell 3 3 "a"] ++ rows)

theorem distinct_cratedLayout : cratedLayout.Distinct := by
  have hleaf : ∀ name column, (label name column).Distinct := fun _ _ =>
    .mk List.nodup_nil (List.forall_mem_nil _)
  have hcrate : crateLabel.Distinct := by
    refine .mk (by decide) ?_
    rw [crateLabel, List.forall_mem_cons, List.forall_mem_singleton]
    exact ⟨hleaf _ _, hleaf _ _⟩
  refine .mk (by decide) ?_
  rw [cratedLayout, List.forall_mem_cons, List.forall_mem_singleton]
  exact ⟨hcrate, hleaf _ _⟩

/-- The column of the tags is that of an array, though the crate starts in it, too. -/
theorem arrayColumn_crated : ArrayColumn crated cratedLayout 1 :=
  ⟨_, crateLabel, label "tags" 1, tags, { name := "tags", isArray := true }, .string, label "tags" 1,
    .step ⟨List.mem_cons_self, rfl⟩ (.refl _ _), ⟨List.mem_cons_self, rfl⟩, rfl, .refl _ _, rfl⟩

set_option maxRecDepth 10000 in
/-- A second tag of a crate that starts with its tags ends the item that the crate is in. -/
theorem readRecord_crates :
    (Layout.ofSheet (cratedSheet []) crated.maxDepth = .ok cratedLayout ∧
      Layout.ofSheet (cratedSheet [cell 4 1 "blue"]) crated.maxDepth = .ok cratedLayout ∧
      cratedLayout.covers "" crated = .ok () ∧ cratedLayout.Distinct ∧
      ∀ row column, ¬ ArrayColumn crated cratedLayout column →
        (cratedSheet [cell 4 1 "blue"]).get? row column = (cratedSheet []).get? row column) ∧
    (readRecord (coerceIn (cratedSheet [])) (cratedSheet []) crated cratedLayout 3 4).map
      Prod.snd = .ok 4 ∧
    (readRecord (coerceIn (cratedSheet [cell 4 1 "blue"])) (cratedSheet [cell 4 1 "blue"]) crated
      cratedLayout 3 4).map Prod.snd = .ok 3 := by
  refine ⟨⟨by cbv, by cbv, by cbv, distinct_cratedLayout, fun row column hcolumn => ?_⟩, by cbv,
    by cbv⟩
  rw [cratedSheet, cratedSheet, List.append_nil, Sheet.ofCells_concat,
    Sheet.get?_push (Sheet.indexed_ofCells _ _ _), if_neg]
  rintro ⟨-, rfl⟩
  exact hcolumn arrayColumn_crated

end Stock

end TableExport
