import TableExport.Proofs.Entries
import TableExport.Proofs.Table.Header
import TableExport.Proofs.Table.Reading

/-!
# Reading a written table

A table that is written into a sheet is read back as it was.

The rows of a record hold its fields beside each other (`holds_placed`). Since a record starts with
one of its own single values, and single values stand in first rows only, a record ends where the
next one of its array starts (`recordEnd_of_keyed`, `recordEnd_of_last`), and an array is read
record by record (`collect_records`). A field is read back from the region that holds it, by
induction on the type tree (`readField_cells`); what is read does not depend on how many blank rows
follow.

* `extractTable_sheetCells`: extracting a written table gives its records back.
-/

namespace TableExport

namespace Extracted

variable {α β : Type}

theorem mapItems_eq_map (f : α → β) (items : List (Extracted α)) :
    mapItems f items = items.map (map f) := by
  induction items with
  | nil => rw [mapItems, List.map_nil]
  | cons item rest ih => rw [mapItems, ih, List.map_cons]

theorem mapFields_eq_map (f : α → β) (fields : Entries (Extracted α)) :
    mapFields f fields = fields.map fun field => (field.1, field.2.map f) := by
  induction fields with
  | nil => rw [mapFields, List.map_nil]
  | cons field rest ih => rw [mapFields, ih, List.map_cons]

theorem mapFields_ne_nil {f : α → β} {fields : Entries (Extracted α)} (h : fields ≠ []) :
    mapFields f fields ≠ [] := by
  rw [mapFields_eq_map]
  exact fun hnil => h (List.map_eq_nil_iff.1 hnil)

end Extracted

namespace TypeTree

theorem member?_of_mem {field : Field} {members : List TypeTree} (h : (members.map name).Nodup)
    {member : TypeTree} (hm : member ∈ members) :
    (composite field members).member? member.name = some member := by
  change members.find? (·.name == member.name) = some member
  induction members with
  | nil => cases hm
  | cons other rest ih =>
    rw [List.map_cons, List.nodup_cons] at h
    rcases List.mem_cons.1 hm with rfl | hm
    · simp
    · have hne : other.name ≠ member.name := fun heq => h.1 (heq ▸ List.mem_map_of_mem hm)
      rw [List.find?_cons_of_neg (by simpa using hne)]
      exact ih h.2 hm

theorem Authorable.startsSingle {tree : TypeTree} (h : tree.Authorable)
    (hsingle : tree.isArray = false) : tree.StartsSingle := by
  cases tree with
  | leaf field type => exact hsingle
  | composite field members => exact ⟨hsingle, h.2.2.1 hsingle⟩

end TypeTree

namespace Authored

open Extraction

/-! ## The fields of a record -/

theorem Keyed.ne_nil {members : List TypeTree} {fields : Entries (Extracted Written)}
    (h : Keyed members fields) : fields ≠ [] := by
  rintro rfl
  obtain ⟨member, _, _, _, hkey⟩ := h
  cases hkey

/-- The fields of a record in the order of a composite. -/
def present (members : List TypeTree) (fields : Entries (Extracted Written)) :
    Entries (Extracted Written) :=
  members.filterMap fun member => (fields.get? member.name).map (member.name, ·)

theorem FieldsConform.exists_member : ∀ {members : List TypeTree}
    {fields : Entries (Extracted Written)}, FieldsConform members fields →
    ∀ key ∈ fields.keys, ∃ member ∈ members, member.name = key
  | [], _, h, key, hk => by
    cases h
    cases hk
  | member :: rest, _, h, key, hk => by
    cases h with
    | absent hrest =>
      obtain ⟨other, ho, hkey⟩ := hrest.exists_member key hk
      exact ⟨other, List.mem_cons_of_mem _ ho, hkey⟩
    | present _ hrest =>
      rcases List.mem_cons.1 hk with rfl | hk
      · exact ⟨member, List.mem_cons_self .., rfl⟩
      · obtain ⟨other, ho, hkey⟩ := hrest.exists_member key hk
        exact ⟨other, List.mem_cons_of_mem _ ho, hkey⟩

/-- Fields of a record that belong to the later fields of a composite do not have the name of an
earlier one. -/
theorem FieldsConform.get?_eq_none {name : String} {rest : List TypeTree}
    {fields : Entries (Extracted Written)} (h : FieldsConform rest fields)
    (hname : name ∉ rest.map TypeTree.name) : fields.get? name = none := by
  rw [Entries.get?_eq_none]
  intro hk
  obtain ⟨member, hm, rfl⟩ := h.exists_member name hk
  exact hname (List.mem_map_of_mem hm)

/-- The fields of a record are its values in the order of the composite. -/
theorem FieldsConform.present_eq : ∀ {members : List TypeTree}
    {fields : Entries (Extracted Written)}, FieldsConform members fields →
    (members.map TypeTree.name).Nodup → Authored.present members fields = fields
  | [], _, h, _ => by
    cases h
    rfl
  | member :: rest, fields, h, hnodup => by
    rw [List.map_cons, List.nodup_cons] at hnodup
    cases h with
    | absent hrest =>
      rw [Authored.present, List.filterMap_cons, hrest.get?_eq_none hnodup.1]
      exact hrest.present_eq hnodup.2
    | @present _ _ value more _ hrest =>
      have hkeep : rest.filterMap (fun other =>
            (Entries.get? ((member.name, value) :: more) other.name).map (other.name, ·)) =
          Authored.present rest more := by
        refine List.filterMap_congr fun other ho => ?_
        have hne : member.name ≠ other.name := fun heq =>
          hnodup.1 (heq ▸ List.mem_map_of_mem ho)
        rw [Entries.get?_cons_of_ne hne]
      rw [Authored.present, List.filterMap_cons, Entries.get?_cons_self, hkeep,
        hrest.present_eq hnodup.2]
      rfl

theorem FieldsConform.conforms : ∀ {members : List TypeTree}
    {fields : Entries (Extracted Written)}, FieldsConform members fields →
    (members.map TypeTree.name).Nodup → ∀ member ∈ members, ∀ value,
      fields.get? member.name = some value → Conforms member value
  | [], _, _, _, _, hm, _, _ => by cases hm
  | first :: rest, fields, h, hnodup, member, hm, value, hget => by
    rw [List.map_cons, List.nodup_cons] at hnodup
    cases h with
    | absent hrest =>
      rcases List.mem_cons.1 hm with rfl | hm
      · rw [hrest.get?_eq_none hnodup.1] at hget
        cases hget
      · exact hrest.conforms hnodup.2 member hm value hget
    | present hvalue hrest =>
      rcases List.mem_cons.1 hm with rfl | hm
      · rw [Entries.get?_cons_self] at hget
        cases hget
        exact hvalue
      · have hne : first.name ≠ member.name := fun heq =>
          hnodup.1 (heq ▸ List.mem_map_of_mem hm)
        rw [Entries.get?_cons_of_ne hne] at hget
        exact hrest.conforms hnodup.2 member hm value hget

/-! ## Regions of fields -/

variable {sheet : Sheet}

/-- The cells of the value that a record has for a field, if it has one. -/
def fieldCells (column : Nat) (member : TypeTree) (fields : Entries (Extracted Written))
    (row : Nat) : List Cell :=
  (fields.get? member.name).elim [] fun value => cells column member value row

/-- **The region of a record holds each field in its own columns.** -/
theorem holds_placed {members : List TypeTree} {fields : Entries (Extracted Written)}
    {row top bottom column : Nat}
    (h : sheet.Holds (cellsAll column members fields row) top bottom column
      (column + TypeTree.widthAll members))
    {first : Nat} {member : TypeTree} (hplace : (first, member) ∈ placed column members) :
    sheet.Holds (fieldCells first member fields row) top bottom first (first + member.width) ∧
      column ≤ first ∧ first + member.width ≤ column + TypeTree.widthAll members := by
  induction members generalizing column with
  | nil => cases hplace
  | cons other rest ih =>
    rw [cellsAll] at h
    simp only [TypeTree.widthAll] at h ⊢
    obtain ⟨hfield, hrest⟩ := h.beside (column + other.width) (by omega)
      (fun cell hc => column_lt_of_mem_field hc) (fun cell hc => (mem_cellsAll rest hc).2.1)
    rcases List.mem_cons.1 hplace with heq | hplace
    · cases heq
      exact ⟨hfield, le_refl _, by omega⟩
    · obtain ⟨hmember, hle⟩ := ih (by rw [Nat.add_assoc]; exact hrest) hplace
      exact ⟨hmember, by omega⟩

/-- The items of the value of a single-valued field: the value itself. -/
theorem Conforms.items_eq {tree : TypeTree} {value : Extracted Written} (h : Conforms tree value)
    (hsingle : tree.isArray = false) : value.items = [value] := by
  cases h with
  | scalar => rfl
  | record => rfl
  | scalars harray => exact absurd (harray.symm.trans hsingle) (by decide)
  | records harray => exact absurd (harray.symm.trans hsingle) (by decide)

theorem Conforms.exists_record {field : Field} {members : List TypeTree}
    {value : Extracted Written} (h : Conforms (.composite field members) value)
    (hsingle : field.isArray = false) :
    ∃ fields, value = .record fields ∧ fields ≠ [] ∧ FieldsConform members fields := by
  cases h with
  | record _ hne hfields => exact ⟨_, rfl, hne, hfields⟩
  | records harray => exact absurd (harray.symm.trans hsingle) (by decide)

/-- A field that starts with a single value has cells in its first column in the first row only. -/
theorem row_eq_of_first : ∀ (tree : TypeTree) {column row : Nat} {value : Extracted Written},
    tree.Authorable → tree.StartsSingle → Conforms tree value →
    ∀ cell ∈ cells column tree value row, cell.column = column → cell.row = row
  | .leaf field type, column, row, value, _, hs, hv, cell, hc, _ => by
    rw [cells, hv.items_eq hs, stack, stack, List.append_nil] at hc
    obtain ⟨written, -, rfl⟩ := mem_scalarCells hc
    rfl
  | .composite field [], _, _, _, _, hs, _, _, _, _ => hs.2.elim
  | .composite field (member :: rest), column, row, value, ht, hs, hv, cell, hc, hcolumn => by
    obtain ⟨fields, rfl, -, hfields⟩ := hv.exists_record hs.1
    rw [cells, hv.items_eq hs.1, stack, stack, List.append_nil, cellsAll, Extracted.fields] at hc
    have hpos := ht.2.2.2.1.width_pos
    rcases List.mem_append.1 hc with hc | hc
    · cases hget : Entries.get? fields member.name with
      | none =>
        rw [hget] at hc
        cases hc
      | some inner =>
        rw [hget] at hc
        exact row_eq_of_first member ht.2.2.2.1 hs.2
          (hfields.conforms ht.2.1.nodup member (List.mem_cons_self ..) inner hget) cell hc
          hcolumn
    · have := (mem_cellsAll rest hc).2.1
      omega

section Record

variable {field : Field} {members : List TypeTree} {fields : Entries (Extracted Written)}
  {row stop column : Nat}

/-- Within the region of one record no other record starts. -/
theorem not_starts (ht : TypeTree.AuthorableAll members)
    (hnodup : (members.map TypeTree.name).Nodup)
    (hconforms : ∀ member ∈ members, ∀ value, fields.get? member.name = some value →
      Conforms member value)
    (h : sheet.Holds (cellsAll column members fields row) row stop column
      (column + TypeTree.widthAll members)) {other : Nat} (hother : row < other ∧ other ≤ stop) :
    ¬ Starts sheet (.composite field members) (layouts column members) other := by
  rw [layouts_eq_map]
  rintro ⟨label, hl, found, hfound, hsingle, hfilled⟩
  obtain ⟨⟨first, member⟩, hplace, rfl⟩ := List.mem_map.1 hl
  have hm := mem_of_placed hplace
  simp only [name_layout, first_layout] at hfound hfilled
  rw [TypeTree.member?_of_mem hnodup hm] at hfound
  rw [← Option.some.inj hfound] at hsingle
  obtain ⟨hfield, -⟩ := holds_placed h hplace
  have hpos := (ht.of_mem hm).width_pos
  have hblank : sheet.isBlank other first = true := by
    apply hfield.blank other first (by omega) (by omega) (le_refl _) (by omega)
    rintro cell hc ⟨hrow, hcolumn⟩
    rw [fieldCells] at hc
    cases hget : fields.get? member.name with
    | none =>
      rw [hget] at hc
      cases hc
    | some value =>
      rw [hget] at hc
      have := row_eq_of_first member (ht.of_mem hm) ((ht.of_mem hm).startsSingle hsingle)
        (hconforms member hm value hget) cell hc hcolumn
      omega
  rw [hblank] at hfilled
  cases hfilled

/-- A record with a single value of its own has it in its first row. -/
theorem exists_filled (hnodup : (members.map TypeTree.name).Nodup)
    (hfields : FieldsConform members fields) (hkeyed : Keyed members fields)
    (h : sheet.Holds (cellsAll column members fields row) row stop column
      (column + TypeTree.widthAll members)) :
    ∃ first member, (first, member) ∈ placed column members ∧ member.isArray = false ∧
      row ≤ stop ∧ (column ≤ first ∧ first < column + TypeTree.widthAll members) ∧
      sheet.isBlank row first = false := by
  obtain ⟨member, hm, hleaf, hsingle, hkey⟩ := hkeyed
  obtain ⟨first, hplace⟩ := exists_placed column hm
  obtain ⟨value, hget⟩ := Entries.exists_get?_of_mem_keys hkey
  have hvalue := hfields.conforms hnodup member hm value hget
  obtain ⟨hfield, hrange⟩ := holds_placed h hplace
  rw [fieldCells, hget, Option.elim_some] at hfield
  refine ⟨first, member, hplace, hsingle, ?_⟩
  cases hvalue with
  | @scalar field type written _ _ =>
    rw [cells] at hfield
    have hc : written.cell row first ∈ stack (fun _ => 1) (scalarCells first)
        (Extracted.items (.scalar written)) row := List.mem_cons_self ..
    have hin := hfield.inside _ hc
    have hwidth : (TypeTree.leaf field type).width = 1 := by rw [TypeTree.width]
    exact ⟨hin.1.trans hin.2.1, by omega, hfield.isBlank_eq_false hc⟩
  | scalars harray => exact absurd (harray.symm.trans hsingle) (by decide)
  | record => cases hleaf
  | records => cases hleaf

/-- A record with a single value of its own starts in its first row. -/
theorem starts_of_keyed (field : Field) (hnodup : (members.map TypeTree.name).Nodup)
    (hfields : FieldsConform members fields) (hkeyed : Keyed members fields)
    (h : sheet.Holds (cellsAll column members fields row) row stop column
      (column + TypeTree.widthAll members)) :
    Starts sheet (.composite field members) (layouts column members) row := by
  obtain ⟨first, member, hplace, hsingle, -, -, hfilled⟩ := exists_filled hnodup hfields hkeyed h
  refine ⟨layout first member, ?_, member, ?_, hsingle, ?_⟩
  · rw [layouts_eq_map]
    exact List.mem_map_of_mem hplace
  · rw [name_layout]
    exact TypeTree.member?_of_mem hnodup (mem_of_placed hplace)
  · rwa [first_layout]

end Record

/-! ## Arrays of records -/

variable {ε : Type} {coerce : ScalarType → Cell → Except ε Scalar}

/-- A row in which some column has a value is not blank. -/
theorem isBlankRow_eq_false {row first last column : Nat} (hcolumn : first ≤ column ∧ column ≤ last)
    (h : sheet.isBlank row column = false) : sheet.isBlankRow row first last = false := by
  rw [Bool.eq_false_iff]
  intro hblank
  rw [Sheet.isBlankRow_eq_true.1 hblank column hcolumn.1 hcolumn.2] at h
  cases h

section Records

variable {field : Field} {members : List TypeTree} {column gap : Nat}

/-- The cells of records one below the other, with blank rows after each. -/
def recordCells (column : Nat) (members : List TypeTree) (gap : Nat) :
    List (Extracted Written) → Nat → List Cell :=
  stack (fun item => recordHeight members item + gap) fun item row =>
    cellsAll column members item.fields row

/-- The region of a stack of records begins with that of the first one. -/
theorem holds_recordCells_cons {item : Extracted Written} {rest : List (Extracted Written)}
    {row stop : Nat}
    (h : sheet.Holds (recordCells column members gap (item :: rest) row) row stop column
      (column + TypeTree.widthAll members)) :
    sheet.Holds (cellsAll column members item.fields row) row
        (min stop (row + recordHeight members item + gap - 1)) column
        (column + TypeTree.widthAll members) ∧
      sheet.Holds (recordCells column members gap rest (row + recordHeight members item + gap))
        (row + recordHeight members item + gap) stop column
        (column + TypeTree.widthAll members) := by
  rw [recordCells, stack, ← Nat.add_assoc] at h
  have hheight : 0 < recordHeight members item := Nat.lt_of_lt_of_le Nat.one_pos (le_max_left _ _)
  have hlow : ∀ cell ∈ cellsAll column members item.fields row,
      cell.row < row + recordHeight members item := by
    intro cell hc
    have := (mem_cellsAll members hc).1.2
    rw [recordHeight]
    omega
  obtain ⟨hfirst, hrest⟩ := h.above (row + recordHeight members item + gap) (by omega)
    (fun cell hc => (hlow cell hc).trans_le (Nat.le_add_right _ _)) fun cell hc =>
      row_le_of_mem_stack (fun item row cell hc => (mem_cellsAll members hc).1.1) hc
  refine ⟨hfirst _ (by omega) (min_le_left _ _) fun cell hc => ?_, hrest⟩
  have := hlow cell hc
  have := (h.inside cell (List.mem_append_left _ hc)).2.1
  omega

/-- The fields of a composite are read back from the region of a record. -/
def ReadsFields (coerce : ScalarType → Cell → Except ε Scalar) (sheet : Sheet) (field : Field)
    (members : List TypeTree) (column : Nat) : Prop :=
  ∀ {fields : Entries (Extracted Written)} {row stop : Nat}, row ≤ stop →
    (∀ member ∈ members, ∀ value, fields.get? member.name = some value →
      Conforms member value) →
    sheet.Holds (cellsAll column members fields row) row stop column
      (column + TypeTree.widthAll members) →
    readFields coerce sheet (.composite field members) (layouts column members) row stop [] =
      .ok (Extracted.mapFields Written.value (present members fields))

/-- A record is read back from its region, if that holds all rows or another record starts below
it. -/
theorem readRecord_cells {name : String} {last : Nat} (ht : TypeTree.AuthorableAll members)
    (hnodup : (members.map TypeTree.name).Nodup)
    (hread : ReadsFields coerce sheet field members column)
    {fields : Entries (Extracted Written)} {row stop bottom : Nat} (hrow : row ≤ bottom)
    (hbottom : bottom ≤ stop) (hfields : FieldsConform members fields)
    (h : sheet.Holds (cellsAll column members fields row) row bottom column
      (column + TypeTree.widthAll members))
    (hnext : bottom < stop →
      Starts sheet (.composite field members) (layouts column members) (bottom + 1)) :
    readRecord coerce sheet (.composite field members)
        ⟨name, column, last, layouts column members⟩ row stop =
      .ok (Extracted.mapFields Written.value fields, bottom) := by
  have hconforms := hfields.conforms hnodup
  have hend : recordEnd sheet (.composite field members) (layouts column members) row stop =
      bottom :=
    recordEnd_eq ⟨hrow, hbottom⟩
      (fun other h₁ h₂ => not_starts ht hnodup hconforms h ⟨h₁, h₂⟩) hnext
  rw [readRecord_eq, hend, hread hrow hconforms h, hfields.present_eq hnodup]
  rfl

/-- **A stack of records is read record by record**, whatever the number of blank rows after each.
What is asked for is that the fields of each are read back from the region of the record. -/
theorem collect_records (name : String) (ht : TypeTree.AuthorableAll members)
    (hnodup : (members.map TypeTree.name).Nodup) (hpos : 0 < TypeTree.widthAll members)
    (hread : ReadsFields coerce sheet field members column)
    {items : List (Extracted Written)} {row stop : Nat}
    (hitems : ∀ item ∈ items, ItemConforms members item)
    (h : sheet.Holds (recordCells column members gap items row) row stop column
      (column + TypeTree.widthAll members)) :
    collect (fun row => sheet.isBlankRow row column (column + TypeTree.widthAll members - 1))
        (fun row => readRecord coerce sheet (.composite field members)
          ⟨name, column, column + TypeTree.widthAll members - 1, layouts column members⟩ row stop)
        row stop =
      .ok (Extracted.mapItems Written.value items) := by
  induction items generalizing row with
  | nil =>
    rw [Extracted.mapItems]
    apply collect_of_blank
    intro other h₁ h₂
    rw [Sheet.isBlankRow_eq_true]
    intro position h₃ h₄
    exact h.isBlank_of_nil h₁ h₂ h₃ (by omega)
  | cons item rest ih =>
    obtain @⟨_, fields, hfields, hkeyed⟩ := hitems item (List.mem_cons_self ..)
    obtain ⟨hfirst, hrest⟩ := holds_recordCells_cons h
    obtain ⟨first, -, -, -, hrow, hcolumn, hfilled⟩ := exists_filled hnodup hfields hkeyed hfirst
    have hmap : Extracted.mapFields Written.value fields ≠ [] :=
      Extracted.mapFields_ne_nil hkeyed.ne_nil
    have hblank : sheet.isBlankRow row column (column + TypeTree.widthAll members - 1) = false :=
      isBlankRow_eq_false ⟨hcolumn.1, by omega⟩ hfilled
    rw [Extracted.mapItems, Extracted.map]
    cases rest with
    | nil =>
      -- the last record takes all rows that are left
      have hall : sheet.Holds (cellsAll column members fields row) row stop column
          (column + TypeTree.widthAll members) := by
        rw [recordCells, stack, stack, List.append_nil] at h
        exact h
      exact collect_cons stop (by omega) hblank hmap
        (readRecord_cells ht hnodup hread (by omega) le_rfl hfields hall
          fun hlt => absurd hlt (lt_irrefl _)) (by omega) (collect_of_lt (Nat.lt_succ_self _))
    | cons next more =>
      -- the next record starts where this one and its blank rows end
      obtain @⟨_, others, hothers, hkeyed'⟩ := hitems next (by simp)
      obtain ⟨hnext, -⟩ := holds_recordCells_cons hrest
      obtain ⟨-, -, -, -, hrow', -, -⟩ := exists_filled hnodup hothers hkeyed' hnext
      have hstarts := starts_of_keyed field hnodup hothers hkeyed' hnext
      have hheight : 0 < recordHeight members (.record fields) :=
        Nat.lt_of_lt_of_le Nat.one_pos (le_max_left _ _)
      generalize hlast : row + recordHeight members (.record fields) + gap = after at *
      have hmin : min stop (after - 1) = after - 1 := by omega
      rw [hmin] at hfirst
      have hsucc : after - 1 + 1 = after := Nat.sub_add_cancel (by omega)
      refine collect_cons (after - 1) (by omega) hblank hmap
        (readRecord_cells ht hnodup hread (by omega) (by omega) hfields hfirst
          fun _ => hsucc ▸ hstarts) (by omega) ?_
      rw [hsucc]
      exact ih (fun other ho => hitems other (List.mem_cons_of_mem _ ho)) hrest

end Records

/-! ## Leaves -/

/-- Cells that show values are read as the values. -/
def ReadsBack (coerce : ScalarType → Cell → Except ε Scalar) : Prop :=
  ∀ (written : Written) (row column : Nat),
    coerce written.value.type (written.cell row column) = .ok written.value

section Leaves

variable {list : List Written} {row stop column : Nat}

/-- A column that holds single values one below the other has their cells. -/
theorem columnCells_of_holds
    (h : sheet.Holds (stack (fun _ => 1) (scalarCells column) (list.map .scalar) row) row stop
      column (column + 1)) :
    columnCells sheet column row (stop + 1 - row) =
      stack (fun _ => 1) (scalarCells column) (list.map .scalar) row := by
  induction list generalizing row with
  | nil =>
    apply columnCells_of_blank
    intro other h₁ h₂
    exact h.isBlank_of_nil h₁ (by omega) (le_refl _) (Nat.lt_succ_self _)
  | cons written rest ih =>
    rw [List.map_cons, stack, scalarCells] at h ⊢
    have hcell := h.filter_get? (List.mem_cons_self ..)
    have hin := h.inside _ (List.mem_cons_self ..)
    simp only [Written.row_cell, Written.column_cell] at hcell hin
    have hcount : stop + 1 - row = (stop + 1 - (row + 1)) + 1 := by omega
    obtain ⟨-, hrest⟩ := h.above (row + 1) (Nat.le_succ row)
      (by simp) fun cell hc =>
        row_le_of_mem_stack (fun item row cell hc => by
          obtain ⟨written, -, rfl⟩ := mem_scalarCells hc
          exact le_refl row) hc
    rw [hcount, columnCells_of_some hcell, ih hrest]
    rfl

/-- Cells of single values are read as the values. -/
theorem mapM_coerce (hcoerce : ReadsBack coerce) {type : ScalarType}
    (htype : ∀ written ∈ list, written.value.type = type) :
    (stack (fun _ => 1) (scalarCells column) (list.map .scalar) row).mapM (coerce type) =
      .ok (list.map Written.value) := by
  induction list generalizing row with
  | nil => rfl
  | cons written rest ih =>
    have hfirst : coerce type (written.cell row column) = .ok written.value := by
      rw [← htype written (List.mem_cons_self ..)]
      exact hcoerce written row column
    rw [List.map_cons, stack, scalarCells, List.singleton_append, List.mapM_cons, hfirst]
    simp only [bind, Except.bind, pure, Except.pure]
    rw [ih fun other ho => htype other (List.mem_cons_of_mem _ ho)]
    rfl

/-- **The value of a leaf is read back from its column.** -/
theorem readLeaf_cells (hcoerce : ReadsBack coerce) {field : Field} {type : ScalarType}
    {value? : Option (Extracted Written)} (hrow : row ≤ stop)
    (hconforms : ∀ value ∈ value?, Conforms (.leaf field type) value)
    (h : sheet.Holds (value?.elim [] fun value => cells column (.leaf field type) value row) row
      stop column (column + 1)) :
    readLeaf coerce sheet field type column row stop =
      .ok (value?.map (Extracted.map Written.value)) := by
  rw [readLeaf]
  cases value? with
  | none =>
    rw [Option.elim_none] at h
    have hblank : ∀ other, row ≤ other → other ≤ stop → sheet.isBlank other column = true :=
      fun other h₁ h₂ => h.isBlank_of_nil h₁ h₂ (le_refl _) (Nat.lt_succ_self _)
    rw [columnCells_of_blank fun other h₁ h₂ => hblank other h₁ (by omega),
      Sheet.filter_get?_of_isBlank (hblank row (le_refl _) hrow)]
    split <;> rfl
  | some value =>
    rw [Option.elim_some, cells] at h
    have hvalue := hconforms value rfl
    cases hvalue with
    | @scalar _ _ written harray htype =>
      have hcell := h.filter_get? (show written.cell row column ∈ _ from List.mem_cons_self ..)
      have hread : coerce type (written.cell row column) = .ok written.value := by
        rw [← htype]
        exact hcoerce written row column
      rw [Written.row_cell, Written.column_cell] at hcell
      rw [if_neg (by simp [harray]), hcell]
      simp only [hread, Except.map]
      rfl
    | @scalars _ _ list harray hne htype =>
      simp only [Extracted.items] at h
      rw [if_pos harray, columnCells_of_holds h, mapM_coerce hcoerce htype]
      simp only [bind, Except.bind, pure, Except.pure, listOf, List.isEmpty_iff,
        List.map_eq_nil_iff, hne, if_false, Option.map_some, Extracted.map,
        Extracted.mapItems_eq_map, List.map_map]
      rfl

end Leaves

/-! ## Fields -/

theorem cellsAll_nil (column : Nat) (members : List TypeTree) (row : Nat) :
    cellsAll column members [] row = [] := by
  induction members generalizing column with
  | nil => rfl
  | cons member rest ih => rw [cellsAll, ih, Entries.get?_nil, Option.elim_none, List.nil_append]

theorem fieldsConform_nil (members : List TypeTree) : FieldsConform members [] := by
  induction members with
  | nil => exact FieldsConform.nil
  | cons member rest ih => exact FieldsConform.absent ih

/-- The value of an array of records as the list of its items, which is empty when there is no
value. -/
theorem exists_items {field : Field} {members : List TypeTree} (column row : Nat)
    (harray : field.isArray = true) {value? : Option (Extracted Written)}
    (h : ∀ value ∈ value?, Conforms (.composite field members) value) :
    ∃ items, (∀ item ∈ items, ItemConforms members item) ∧
      (value?.elim [] fun value => cells column (.composite field members) value row) =
        recordCells column members 0 items row ∧
      listOf (Extracted.mapItems Written.value items) =
        value?.map (Extracted.map Written.value) := by
  cases value? with
  | none => exact ⟨[], List.forall_mem_nil _, rfl, rfl⟩
  | some value =>
    cases h value rfl with
    | record hsingle => exact absurd (harray.symm.trans hsingle) (by decide)
    | @records _ _ items _ hne hitems =>
      refine ⟨items, hitems, ?_, ?_⟩
      · rw [Option.elim_some, cells]
        rfl
      · simp [listOf, Extracted.mapItems_eq_map, hne, Extracted.map]

/-- The value of a single record as its fields, of which there are none when there is no value. -/
theorem exists_fields {field : Field} {members : List TypeTree} (column row : Nat)
    (hsingle : field.isArray = false) {value? : Option (Extracted Written)}
    (h : ∀ value ∈ value?, Conforms (.composite field members) value) :
    ∃ fields, FieldsConform members fields ∧
      (value?.elim [] fun value => cells column (.composite field members) value row) =
        cellsAll column members fields row ∧
      recordOf (Extracted.mapFields Written.value fields) =
        value?.map (Extracted.map Written.value) := by
  cases value? with
  | none => exact ⟨[], fieldsConform_nil members, (cellsAll_nil column members row).symm, rfl⟩
  | some value =>
    have hitems := (h value rfl).items_eq hsingle
    obtain ⟨fields, rfl, hne, hfields⟩ := (h value rfl).exists_record hsingle
    refine ⟨fields, hfields, ?_, ?_⟩
    · rw [Option.elim_some, cells, hitems, stack, stack, List.append_nil]
      rfl
    · simp [recordOf, Extracted.mapFields_eq_map, hne, Extracted.map]

mutual

/-- **A field is read back from the region that holds it.** -/
theorem readField_cells (hcoerce : ReadsBack coerce) : ∀ (tree : TypeTree)
    {column row stop : Nat} {value? : Option (Extracted Written)}, tree.Authorable → row ≤ stop →
    (∀ value ∈ value?, Conforms tree value) →
    sheet.Holds (value?.elim [] fun value => cells column tree value row) row stop column
      (column + tree.width) →
    readField coerce sheet tree (layout column tree) row stop =
      .ok (value?.map (Extracted.map Written.value))
  | .leaf field type, column, row, stop, value?, _, hrow, hv, h => by
    rw [layout]
    exact readLeaf_cells hcoerce hrow hv h
  | .composite field members, column, row, stop, value?, ht, hrow, hv, h => by
    have hpos := ht.width_pos
    simp only [TypeTree.width] at h hpos
    have hread : ReadsFields coerce sheet field members column := fun hrow hv h =>
      readFields_cellsAll hcoerce members ht.2.2.2 ht.2.1.nodup
        (fun _ hm => TypeTree.member?_of_mem ht.2.1.nodup hm) hrow hv h
    rw [layout, readField]
    by_cases harray : field.isArray = true
    · obtain ⟨items, hitems, hcells, hout⟩ := exists_items column row harray hv
      rw [hcells] at h
      rw [if_pos harray, collect_records _ ht.2.2.2 ht.2.1.nodup hpos hread hitems h, ← hout]
      rfl
    · have hsingle : field.isArray = false := by simpa using harray
      obtain ⟨fields, hfields, hcells, hout⟩ :=
        exists_fields column row hsingle hv
      rw [hcells] at h
      rw [if_neg harray, readRecord_cells ht.2.2.2 ht.2.1.nodup hread hrow le_rfl hfields h
        fun hlt => absurd hlt (lt_irrefl _), ← hout]
      rfl

theorem readFields_cellsAll (hcoerce : ReadsBack coerce) : ∀ (members : List TypeTree)
    {type : TypeTree} {column row stop : Nat} {fields : Entries (Extracted Written)},
    TypeTree.AuthorableAll members → (members.map TypeTree.name).Nodup →
    (∀ member ∈ members, type.member? member.name = some member) → row ≤ stop →
    (∀ member ∈ members, ∀ value, fields.get? member.name = some value →
      Conforms member value) →
    sheet.Holds (cellsAll column members fields row) row stop column
      (column + TypeTree.widthAll members) →
    readFields coerce sheet type (layouts column members) row stop [] =
      .ok (Extracted.mapFields Written.value (present members fields))
  | [], type, column, row, stop, fields, _, _, _, _, _, _ => by
    rw [layouts, readFields, present, List.filterMap_nil, Extracted.mapFields]
  | member :: rest, type, column, row, stop, fields, ht, hnodup, hmember, hrow, hconforms, h => by
    have hlabels := hnodup
    rw [← map_name_layouts column, layouts] at hlabels
    rw [cellsAll] at h
    simp only [TypeTree.widthAll] at h
    obtain ⟨hfield, hrest⟩ := h.beside (column + member.width) (by omega)
      (fun cell hc => column_lt_of_mem_field hc) (fun cell hc => (mem_cellsAll rest hc).2.1)
    have hthis := readField_cells hcoerce member ht.1 hrow
      (fun value hv => hconforms member (List.mem_cons_self ..) value hv) hfield
    have hfound : type.member? (layout column member).name = some member := by
      rw [name_layout]
      exact hmember member (List.mem_cons_self ..)
    have hothers := readFields_cellsAll hcoerce rest ht.2 (List.Nodup.of_cons hnodup)
      (fun other ho => hmember other (List.mem_cons_of_mem _ ho)) hrow
      (fun other ho => hconforms other (List.mem_cons_of_mem _ ho))
      (by rw [Nat.add_assoc]; exact hrest)
    rw [layouts, readFields_cons_of_distinct hlabels hfound, hthis, hothers, name_layout, present,
      present, List.filterMap_cons]
    cases fields.get? member.name with
    | none => rfl
    | some value => rfl

end

theorem readsFields (hcoerce : ReadsBack coerce) {field : Field} {members : List TypeTree}
    (ht : (TypeTree.composite field members).Authorable) (column : Nat) :
    ReadsFields coerce sheet field members column := fun hrow hv h =>
  readFields_cellsAll hcoerce members ht.2.2.2 ht.2.1.nodup
    (fun _ hm => TypeTree.member?_of_mem ht.2.1.nodup hm) hrow hv h

/-! ## Whole tables -/

section Tables

variable {style : Nat → Nat → CellKind} {field : Field} {members : List TypeTree} {gap : Nat}
  {rows : List (Extracted Written)}

/-- The cells of a table: labels in the header rows, records below them. -/
theorem sheetCells_eq : sheetCells style (.composite field members) gap rows =
    labelsAll style 1 1 members ++
      recordCells 1 members gap rows ((TypeTree.composite field members).maxDepth + 1) := rfl

theorem mem_recordCells {column row : Nat} {cell : Cell}
    (hc : cell ∈ recordCells column members gap rows row) :
    row ≤ cell.row ∧ column ≤ cell.column ∧ cell.column < column + TypeTree.widthAll members :=
  ⟨row_le_of_mem_stack (fun _ _ _ hc => (mem_cellsAll members hc).1.1) hc,
    forall_mem_stack (P := fun cell => column ≤ cell.column ∧
      cell.column < column + TypeTree.widthAll members)
      (fun _ _ _ hc => (mem_cellsAll members hc).2) hc⟩

theorem mem_header (field : Field) (ht : TypeTree.AuthorableAll members) {cell : Cell}
    (hc : cell ∈ labelsAll style 1 1 members) :
    (1 ≤ cell.row ∧ cell.row ≤ (TypeTree.composite field members).maxDepth) ∧
      1 ≤ cell.column ∧ cell.column < 1 + TypeTree.widthAll members := by
  rw [TypeTree.maxDepth]
  exact mem_labelsAll members ht hc

theorem separate_sheetCells (ht : TypeTree.AuthorableAll members) :
    Sheet.Separate (sheetCells style (.composite field members) gap rows) := by
  rw [sheetCells_eq]
  refine Sheet.separate_append (separate_labelsAll ht 1 1) ?_ fun a ha b hb hrow => ?_
  · apply separate_stack (fun _ _ _ hc => (mem_cellsAll members hc).1.1)
    · intro item row cell hc
      have := (mem_cellsAll members hc).1.2
      rw [recordHeight]
      omega
    · exact fun item row => separate_cellsAll members 1 row item.fields
  · have := (mem_header field ht ha).1.2
    have := (mem_recordCells hb).1
    omega

theorem filled_sheetCells (ht : (TypeTree.composite field members).Authorable)
    (hstyle : ∀ row column, (style row column).isText = true) :
    ∀ cell ∈ sheetCells style (.composite field members) gap rows, cell.isBlank = false := by
  intro cell hc
  rw [sheetCells_eq] at hc
  rcases List.mem_append.1 hc with hc | hc
  · exact filled_labelsAll hstyle members ht.2.2.2 ht.2.1.ne_empty cell hc
  · exact forall_mem_stack (P := fun cell => cell.isBlank = false)
      (fun item row cell hc => filled_cellsAll members cell hc) hc

/-- The columns of a written table are those of its leaves. -/
theorem maxColumn_sheetCells (ht : (TypeTree.composite field members).Authorable)
    {cells : List Cell} (hcells : cells.Perm (sheetCells style (.composite field members) gap rows))
    (fileName name : String) :
    (Sheet.ofCells fileName name cells).maxColumn = TypeTree.widthAll members := by
  obtain ⟨last, hlast, hcolumn⟩ : ∃ cell ∈ labelsAll style 1 1 members,
      cell.column + 1 = 1 + TypeTree.widthAll members :=
    exists_labelAll_last members 1 1 ht.1 ht.2.2.2
  refine Sheet.maxColumn_ofCells fileName name (fun cell hc => ?_)
    (hcells.mem_iff.2 (List.mem_append_left _ hlast)) (by omega)
  have hmem := hcells.mem_iff.1 hc
  rw [sheetCells_eq] at hmem
  rcases List.mem_append.1 hmem with hmem | hmem
  · have := (mem_header field ht.2.2.2 hmem).2
    omega
  · have := (mem_recordCells hmem).2
    omega

theorem readsBack_coerceIn (sheet : Sheet) : ReadsBack (coerceIn sheet) := by
  intro written row column
  rw [coerceIn, written.coerce_cell]
  rfl

/-- The rows of a sheet that holds a written table: its labels stand above its records. -/
theorem holds_sheetCells (ht : (TypeTree.composite field members).Authorable)
    (hstyle : ∀ row column, (style row column).isText = true) {cells : List Cell}
    (hcells : cells.Perm (sheetCells style (.composite field members) gap rows))
    (fileName name : String) :
    (Sheet.ofCells fileName name cells).Holds (labelsAll style 1 1 members) 1
      (TypeTree.composite field members).maxDepth 1 (1 + TypeTree.widthAll members) ∧
    (Sheet.ofCells fileName name cells).Holds
      (recordCells 1 members gap rows ((TypeTree.composite field members).maxDepth + 1))
      ((TypeTree.composite field members).maxDepth + 1)
      (max (Sheet.ofCells fileName name cells).maxRow
        ((TypeTree.composite field members).maxDepth + 1)) 1 (1 + TypeTree.widthAll members) := by
  set sheet := Sheet.ofCells fileName name cells with hsheet
  set depth := (TypeTree.composite field members).maxDepth with hdepth
  have hregion : sheet.Holds (sheetCells style (.composite field members) gap rows) 1
      (max sheet.maxRow (depth + 1)) 1 (1 + TypeTree.widthAll members) := by
    refine Sheet.Holds.of_perm (Sheet.holds_ofCells ((separate_sheetCells ht.2.2.2).of_perm hcells)
      (fun cell hc => filled_sheetCells ht hstyle cell (hcells.mem_iff.1 hc)) fileName name
      fun cell hc => ?_) hcells.symm
    have hrow : cell.row ≤ sheet.maxRow := Sheet.row_le_maxRow_ofCells fileName name hc
    have hmem := hcells.mem_iff.1 hc
    rw [sheetCells_eq] at hmem
    rcases List.mem_append.1 hmem with hmem | hmem
    · have := mem_header field ht.2.2.2 hmem
      omega
    · have := mem_recordCells hmem
      omega
  rw [sheetCells_eq] at hregion
  obtain ⟨hheader, hrecords⟩ := hregion.above (depth + 1) (by omega)
    (fun cell hc => Nat.lt_succ_of_le (mem_header field ht.2.2.2 hc).1.2)
    fun cell hc => (mem_recordCells hc).1
  exact ⟨hheader depth (Nat.lt_succ_self _) (by omega)
    fun cell hc => (mem_header field ht.2.2.2 hc).1.2, hrecords⟩

/-- The layout of a sheet with a written table. -/
theorem ofSheet_sheetCells (ht : (TypeTree.composite field members).Authorable)
    (hstyle : ∀ row column, (style row column).isText = true) {cells : List Cell}
    (hcells : cells.Perm (sheetCells style (.composite field members) gap rows))
    (fileName name : String) :
    Layout.ofSheet (Sheet.ofCells fileName name cells)
        (TypeTree.composite field members).maxDepth =
      .ok ⟨TypeTree.rootName, 1, TypeTree.widthAll members, layouts 1 members⟩ :=
  ofSheet_labels hstyle ht (holds_sheetCells ht hstyle hcells fileName name).1
    (maxColumn_sheetCells ht hcells fileName name)

/-- The layout of a written table has all its fields. -/
theorem covers_layouts (ht : (TypeTree.composite field members).Authorable) (last : Nat) :
    Layout.covers ⟨TypeTree.rootName, 1, last, layouts 1 members⟩ ""
      (.composite field members) = .ok () :=
  coversAll_layouts members _ "" ht.2.2.2 fun _ hm => find?_layouts ht.2.1.nodup 1 hm

/-- The records below a header that ends before the greatest row number are read back. -/
theorem readTable_sheetCells (ht : (TypeTree.composite field members).Authorable)
    (hstyle : ∀ row column, (style row column).isText = true)
    (hdepth : (TypeTree.composite field members).maxDepth < Literal.maxCount)
    (hrows : ∀ item ∈ rows, ItemConforms members item) {cells : List Cell}
    (hcells : cells.Perm (sheetCells style (.composite field members) gap rows))
    (fileName name : String) :
    readTable (coerceIn (Sheet.ofCells fileName name cells)) (Sheet.ofCells fileName name cells)
        (.composite field members)
        ⟨TypeTree.rootName, 1, TypeTree.widthAll members, layouts 1 members⟩
        (TypeTree.composite field members).maxDepth =
      .ok (rows.map (Extracted.map Written.value)) := by
  have hpos := ht.width_pos
  simp only [TypeTree.width] at hpos
  have hread := collect_records TypeTree.rootName ht.2.2.2 ht.2.1.nodup hpos
    (readsFields (readsBack_coerceIn (Sheet.ofCells fileName name cells)) ht 1) hrows
    (holds_sheetCells ht hstyle hcells fileName name).2
  rw [Nat.add_sub_cancel_left, Extracted.mapItems_eq_map] at hread
  simp only [readTable, readRecords, Nat.mod_eq_of_lt (Nat.succ_lt_succ hdepth)]
  exact hread

/-- **Extracting a written table gives its records back.** Labels are text cells, and the cells may
come in any order. Row numbers have 64 bits, which must leave room for a row below the header. -/
theorem extractTable_sheetCells (style : Nat → Nat → CellKind) (gap : Nat)
    (ht : (TypeTree.composite field members).Authorable)
    (hstyle : ∀ row column, (style row column).isText = true)
    (hdepth : (TypeTree.composite field members).maxDepth < Literal.maxCount)
    (hrows : ∀ item ∈ rows, ItemConforms members item) {cells : List Cell}
    (hcells : cells.Perm (sheetCells style (.composite field members) gap rows))
    (fileName name : String) :
    extractTable (Sheet.ofCells fileName name cells) (.composite field members) =
      .ok (rows.map (Extracted.map Written.value)) :=
  extractTable_eq_ok (ofSheet_sheetCells ht hstyle hcells fileName name) (covers_layouts ht _)
    (readTable_sheetCells ht hstyle hdepth hrows hcells fileName name)

end Tables

/-- A number one in a number cell. -/
def writtenOne : Written where
  value := .integer 1
  kind := .number
  text := "1"
  filled := by decide
  reads := by decide

/-- A text in a text cell. -/
def writtenText (text : String) (h : text ≠ "") : Written where
  value := .string text
  kind := .sharedString
  text := text
  filled := by simp [Cell.isBlank, h]
  reads := rfl

/-- The fields of a line of an order: a part, which is a record, and a count. -/
def lineMembers : List TypeTree :=
  [.composite { name := "part" } [.leaf { name := "code" } .string],
    .leaf { name := "count" } .integer]

/-- Orders with tags and lines. -/
def orderType : TypeTree :=
  .composite { name := TypeTree.rootName, isArray := true }
    [.leaf { name := "tags", isArray := true } .string, .leaf { name := "id" } .integer,
      .composite { name := "lines", isArray := true } lineMembers]

/-- A line with a part. -/
def partLine : Extracted Written :=
  .record [("part", .record [("code", .scalar (writtenText "p" (by decide)))]),
    ("count", .scalar writtenOne)]

/-- A line without a part. -/
def plainLine : Extracted Written := .record [("count", .scalar writtenOne)]

/-- An order with more tags than lines, and an order with neither. -/
def orders : List (Extracted Written) :=
  [.record [("tags", .list (List.map .scalar [writtenText "new" (by decide),
        writtenText "paid" (by decide), writtenText "sent" (by decide)])),
      ("id", .scalar writtenOne), ("lines", .list [partLine, plainLine])],
    .record [("id", .scalar writtenOne)]]

theorem authorable_orderType : orderType.Authorable := by
  have hpart : TypeTree.Authorable
      (.composite { name := "part" } [.leaf { name := "code" } .string]) :=
    ⟨List.cons_ne_nil _ _, ⟨by decide, by decide, by decide⟩, fun _ => rfl, trivial,
      trivial⟩
  have hlines : TypeTree.Authorable (.composite { name := "lines", isArray := true } lineMembers) :=
    ⟨List.cons_ne_nil _ _, ⟨by decide, by decide, by decide⟩, nofun, hpart, trivial,
      trivial⟩
  exact ⟨List.cons_ne_nil _ _, ⟨by decide, by decide, by decide⟩, nofun, trivial, trivial,
    hlines, trivial⟩

theorem itemConforms_lines : ∀ line ∈ [partLine, plainLine], ItemConforms lineMembers line := by
  have hcount : Conforms (.leaf { name := "count" } .integer) (.scalar writtenOne) :=
    .scalar rfl rfl
  have hmem : TypeTree.leaf { name := "count" } .integer ∈ lineMembers :=
    List.mem_cons_of_mem _ (List.mem_singleton_self _)
  rw [List.forall_mem_cons, List.forall_mem_singleton]
  constructor
  · refine .mk (.present (.record rfl (List.cons_ne_nil _ _) ?_) (.present hcount .nil))
      ⟨_, hmem, rfl, rfl, by decide⟩
    exact .present (.scalar rfl rfl) .nil
  · exact .mk (.absent (.present hcount .nil)) ⟨_, hmem, rfl, rfl, by decide⟩

theorem itemConforms_orders : ∀ order ∈ orders, ItemConforms orderType.members order := by
  have hid : Conforms (.leaf { name := "id" } .integer) (.scalar writtenOne) := .scalar rfl rfl
  have hmem : TypeTree.leaf { name := "id" } .integer ∈ orderType.members :=
    List.mem_cons_of_mem _ (List.mem_cons_self ..)
  rw [orders, List.forall_mem_cons, List.forall_mem_singleton]
  constructor
  · refine .mk (.present (.scalars rfl (List.cons_ne_nil _ _) ?_) (.present hid (.present
      (.records rfl (List.cons_ne_nil _ _) itemConforms_lines) .nil)))
      ⟨_, hmem, rfl, rfl, by decide⟩
    simp [writtenText, Scalar.type]
  · exact .mk (.absent (.present hid (.absent .nil))) ⟨_, hmem, rfl, rfl, by decide⟩

/-- The sheet of two orders with a blank row between them, row by row. -/
theorem extractTable_orders :
    extractTable (Sheet.ofCells "book" "Orders"
      [⟨1, 1, .sharedString, "tags"⟩, ⟨1, 2, .sharedString, "id"⟩, ⟨1, 3, .sharedString, "lines"⟩,
        ⟨2, 3, .sharedString, "part"⟩, ⟨2, 4, .sharedString, "count"⟩,
        ⟨3, 3, .sharedString, "code"⟩,
        ⟨4, 1, .sharedString, "new"⟩, ⟨4, 2, .number, "1"⟩, ⟨4, 3, .sharedString, "p"⟩,
        ⟨4, 4, .number, "1"⟩,
        ⟨5, 1, .sharedString, "paid"⟩, ⟨5, 4, .number, "1"⟩,
        ⟨6, 1, .sharedString, "sent"⟩,
        ⟨8, 2, .number, "1"⟩]) orderType =
      .ok (orders.map (Extracted.map Written.value)) :=
  extractTable_sheetCells (fun _ _ => .sharedString) 1 authorable_orderType (fun _ _ => rfl)
    (by decide +kernel) itemConforms_orders (by decide +kernel) "book" "Orders"

end Authored

end TableExport
