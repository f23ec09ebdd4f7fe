import TableExport.Proofs.Table.Columns
import TableExport.Proofs.Table.RoundTrip

/-!
# Where values come from

The walk over the rows does not look at the values that it makes of cells, so it can be followed
with each value kept together with its cell: what is extracted is the same, without the cells
(`readTable_map`).

* `Extracted.values` are the single values of what is extracted, in order.
* `Accounts` says which cells the values of a list come from: each of some cells gives one, and no
  other cell gives any. Lists that come from different cells can be put together
  (`Accounts.append`), and the place of a value can be told from its cell (`Accounts.placesOf_eq`).
-/

namespace TableExport

/-! ## Values -/

namespace Extracted

variable {α β : Type}

mutual

/-- The single values in the order in which they are printed. -/
def values : Extracted α → List α
  | .scalar value => [value]
  | .list items => valuesOfItems items
  | .record fields => valuesOfFields fields

/-- The single values of items. -/
def valuesOfItems : List (Extracted α) → List α
  | [] => []
  | item :: rest => item.values ++ valuesOfItems rest

/-- The single values of fields. -/
def valuesOfFields : List (String × Extracted α) → List α
  | [] => []
  | (_, value) :: rest => value.values ++ valuesOfFields rest

end

theorem valuesOfItems_append (first second : List (Extracted α)) :
    valuesOfItems (first ++ second) = valuesOfItems first ++ valuesOfItems second := by
  induction first with
  | nil => rw [valuesOfItems, List.nil_append, List.nil_append]
  | cons item rest ih =>
    rw [List.cons_append, valuesOfItems, ih, valuesOfItems, List.append_assoc]

theorem valuesOfFields_append (first second : Entries (Extracted α)) :
    valuesOfFields (first ++ second) = valuesOfFields first ++ valuesOfFields second := by
  induction first with
  | nil => rw [valuesOfFields, List.nil_append, List.nil_append]
  | cons field rest ih =>
    rw [List.cons_append, valuesOfFields, ih, valuesOfFields, List.append_assoc]

theorem valuesOfItems_scalar (values : List α) : valuesOfItems (values.map .scalar) = values := by
  induction values with
  | nil => rw [List.map_nil, valuesOfItems]
  | cons value rest ih =>
    rw [List.map_cons, valuesOfItems, Extracted.values, ih, List.singleton_append]

end Extracted

namespace Extraction

open Extracted

variable {α β ε : Type}

theorem values_listOf (items : List (Extracted α)) :
    ((listOf items).elim [] values) = valuesOfItems items := by
  rw [listOf]
  cases items with
  | nil => rw [valuesOfItems]; rfl
  | cons item rest => rfl

theorem values_recordOf (fields : Entries (Extracted α)) :
    ((recordOf fields).elim [] values) = valuesOfFields fields := by
  rw [recordOf]
  cases fields with
  | nil => rw [valuesOfFields]; rfl
  | cons field rest => rfl

/-- The values of a field that may have none. -/
theorem valuesOfFields_toList (name : String) (value : Option (Extracted α)) :
    valuesOfFields (value.toList.map (name, ·)) = value.elim [] values := by
  cases value with
  | none => rfl
  | some value => exact List.append_nil value.values

theorem valuesOfItems_recordOf (fields : Entries (Extracted α)) :
    valuesOfItems (recordOf fields).toList = valuesOfFields fields := by
  rw [recordOf]
  cases fields with
  | nil => rfl
  | cons field rest => simp [valuesOfItems, Extracted.values]

/-! ## Other values for the cells -/

theorem get?_mapFields (f : α → β) (fields : Entries (Extracted α)) (name : String) :
    Entries.get? (mapFields f fields) name = (fields.get? name).map (Extracted.map f) := by
  induction fields with
  | nil => rfl
  | cons field rest ih =>
    simp only [mapFields, Entries.get?]
    split
    · rfl
    · exact ih

theorem put_mapFields (f : α → β) (fields : Entries (Extracted α)) (name : String)
    (value : Extracted α) :
    Entries.put (mapFields f fields) name (value.map f) = mapFields f (fields.put name value) := by
  induction fields with
  | nil => rfl
  | cons field rest ih =>
    simp only [mapFields, Entries.put]
    split
    · rfl
    · rw [ih, mapFields]

theorem addField_map (f : α → β) (fields : Entries (Extracted α)) (member : TypeTree)
    (value : Extracted α) :
    addField (mapFields f fields) member (value.map f) =
      mapFields f (addField fields member value) := by
  cases value with
  | scalar value => exact put_mapFields f fields member.name (.scalar value)
  | record record => exact put_mapFields f fields member.name (.record record)
  | list items =>
    have hput := put_mapFields f fields member.name
    simp only [Extracted.map, addField, get?_mapFields]
    split
    · cases fields.get? member.name with
      | none => exact hput (.list items)
      | some before =>
        cases before with
        | scalar value => exact hput (.list items)
        | record record => exact hput (.list items)
        | list before =>
          simp only [Option.map_some, Extracted.map]
          rw [← hput, Extracted.map, mapItems_eq_map, mapItems_eq_map, mapItems_eq_map,
            List.map_append]
    · exact hput (.list items)

theorem map_listOf (f : α → β) (items : List (Extracted α)) :
    listOf (items.map (Extracted.map f)) = (listOf items).map (Extracted.map f) := by
  cases items with
  | nil => rfl
  | cons item rest => simp [listOf, Extracted.map, mapItems_eq_map]

theorem map_recordOf (f : α → β) (fields : Entries (Extracted α)) :
    recordOf (mapFields f fields) = (recordOf fields).map (Extracted.map f) := by
  cases fields with
  | nil => rfl
  | cons field rest => rfl

section Map

variable {coerce : ScalarType → Cell → Except ε α} {sheet : Sheet} (f : α → β)

theorem mapM_map {γ : Type} (read : γ → Except ε α) (items : List γ) :
    items.mapM (fun item => (read item).map f) = (items.mapM read).map (List.map f) := by
  induction items with
  | nil => rfl
  | cons item rest ih =>
    rw [List.mapM_cons, List.mapM_cons, ih]
    cases read item with
    | error e => rfl
    | ok value => cases rest.mapM read <;> rfl

theorem readLeaf_map (field : Field) (type : ScalarType) (column start stop : Nat) :
    readLeaf (fun type cell => (coerce type cell).map f) sheet field type column start stop =
      (readLeaf coerce sheet field type column start stop).map (Option.map (Extracted.map f)) := by
  rw [readLeaf, readLeaf]
  split
  · rw [mapM_map]
    cases (columnCells sheet column start (stop + 1 - start)).mapM (coerce type) with
    | error e => rfl
    | ok values =>
      have := map_listOf f (values.map Extracted.scalar)
      rw [List.map_map] at this
      simp only [Except.map, bind, Except.bind, pure, Except.pure, ← this, List.map_map]
      rfl
  · cases (sheet.get? start column).filter (!·.isBlank) with
    | none => rfl
    | some cell =>
      simp only
      cases coerce type cell <;> rfl

theorem collect_map {isBlank : Nat → Bool}
    {read : Nat → Except ε (Entries (Extracted α) × Nat)}
    {read' : Nat → Except ε (Entries (Extracted β) × Nat)}
    (hread : ∀ row, read' row = (read row).map fun record => (mapFields f record.1, record.2))
    (row stop : Nat) :
    collect isBlank read' row stop =
      (collect isBlank read row stop).map (List.map (Extracted.map f)) := by
  by_cases hlt : stop < row
  · rw [collect_of_lt hlt, collect_of_lt hlt]
    rfl
  · have hrow : row ≤ stop := Nat.le_of_not_lt hlt
    cases hblank : isBlank row with
    | true =>
      rw [collect_of_isBlank hrow hblank, collect_of_isBlank hrow hblank]
      exact collect_map hread (row + 1) stop
    | false =>
      rw [collect_of_filled hrow hblank, collect_of_filled hrow hblank, hread]
      cases read row with
      | error e => rfl
      | ok record =>
        obtain ⟨fields, last⟩ := record
        simp only [Except.map, bind, Except.bind]
        rw [collect_map hread (max row last + 1) stop]
        cases collect isBlank read (max row last + 1) stop with
        | error e => rfl
        | ok rest =>
          simp only [Except.map, pure, Except.pure, List.map_append, map_recordOf]
          cases recordOf fields <;> rfl
termination_by stop + 1 - row

theorem readFields_map {type : TypeTree} {labels : List Layout} {start stop : Nat}
    (hread : ∀ label ∈ labels, ∀ member, type.member? label.name = some member →
      readField (fun type cell => (coerce type cell).map f) sheet member label start stop =
        (readField coerce sheet member label start stop).map (Option.map (Extracted.map f)))
    (fields : Entries (Extracted α)) :
    readFields (fun type cell => (coerce type cell).map f) sheet type labels start stop
        (mapFields f fields) =
      (readFields coerce sheet type labels start stop fields).map (mapFields f) := by
  induction labels generalizing fields with
  | nil =>
    rw [readFields, readFields]
    rfl
  | cons label labels ih =>
    have ih' := ih fun inner hinner => hread inner (List.mem_cons_of_mem _ hinner)
    cases hmember : type.member? label.name with
    | none => rw [readFields_cons_of_none hmember, readFields_cons_of_none hmember, ih']
    | some member =>
      rw [readFields_cons hmember, readFields_cons hmember,
        hread label List.mem_cons_self member hmember]
      cases readField coerce sheet member label start stop with
      | error e => rfl
      | ok value =>
        cases value with
        | none => exact ih' fields
        | some value =>
          have hrest := ih' (addField fields member value)
          rw [← addField_map] at hrest
          exact hrest

/-- The record that is read with other values for the cells. -/
theorem readRecord_map (layout : Layout) : ∀ (type : TypeTree) (start stop : Nat),
    readRecord (fun type cell => (coerce type cell).map f) sheet type layout start stop =
      (readRecord coerce sheet type layout start stop).map
        fun record => (mapFields f record.1, record.2) := by
  induction layout using Layout.induction with
  | step layout ih =>
    intro type start stop
    have hread : ∀ label ∈ layout.members, ∀ member, type.member? label.name = some member →
        readField (fun type cell => (coerce type cell).map f) sheet member label start
            (recordEnd sheet type layout.members start stop) =
          (readField coerce sheet member label start
            (recordEnd sheet type layout.members start stop)).map
              (Option.map (Extracted.map f)) := by
      intro label hmem member _
      cases member with
      | leaf field scalar => exact readLeaf_map f field scalar label.first start _
      | composite field members =>
        rw [readField_composite, readField_composite]
        split
        · rw [readRecords, readRecords, collect_map f fun row => ih label hmem _ row _]
          cases collect _ _ start _ with
          | error e => rfl
          | ok items => simp only [Except.map, map_listOf]
        · rw [ih label hmem]
          cases readRecord coerce sheet _ label start _ with
          | error e => rfl
          | ok record => simp only [Except.map, map_recordOf]
    rw [readRecord_eq, readRecord_eq, ← mapFields, readFields_map f hread []]
    cases readFields coerce sheet type layout.members start _ [] <;> rfl

/-- **What is extracted does not depend on what the cells are read as**, but for the values. -/
theorem readTable_map (type : TypeTree) (layout : Layout) (headerRows : Nat) :
    readTable (fun type cell => (coerce type cell).map f) sheet type layout headerRows =
      (readTable coerce sheet type layout headerRows).map (List.map (Extracted.map f)) :=
  collect_map f (fun row => readRecord_map f layout type row _) _ _

end Map

/-! ## Values with their cells -/

/-- Keeps the value of a cell together with the cell. -/
def withCell (coerce : ScalarType → Cell → Except ε α) (type : ScalarType) (cell : Cell) :
    Except ε (Cell × α) :=
  (coerce type cell).map fun value => (cell, value)

/-- Without the cells, what is extracted is what is extracted anyway. -/
theorem readTable_withCell {coerce : ScalarType → Cell → Except ε α} {sheet : Sheet}
    (type : TypeTree) (layout : Layout) (headerRows : Nat) :
    readTable coerce sheet type layout headerRows =
      (readTable (withCell coerce) sheet type layout headerRows).map
        (List.map (Extracted.map Prod.snd)) := by
  rw [← readTable_map]
  congr
  funext type cell
  rw [withCell]
  cases coerce type cell <;> rfl

/-- The values of a list come from the cells that are a source: each of them gives one value, which
is read as the type that it is a source of, and there are no others. -/
structure Accounts (coerce : ScalarType → Cell → Except ε α) (Source : Cell → ScalarType → Prop)
    (values : List (Cell × α)) : Prop where
  nodup : (values.map Prod.fst).Nodup
  sound {cell : Cell} {value : α} : (cell, value) ∈ values → ∃ type, Source cell type
  complete {cell : Cell} {type : ScalarType} : Source cell type →
    ∃ value, coerce type cell = .ok value ∧ (cell, value) ∈ values

namespace Accounts

variable {coerce : ScalarType → Cell → Except ε α} {Source Source' : Cell → ScalarType → Prop}
  {values values' : List (Cell × α)}

theorem nil (h : ∀ cell type, ¬ Source cell type) : Accounts coerce Source [] where
  nodup := List.nodup_nil
  sound h := by cases h
  complete hsource := absurd hsource (h _ _)

theorem singleton {cell : Cell} {type : ScalarType} {value : α}
    (h : coerce type cell = .ok value) :
    Accounts coerce (fun other scalar => other = cell ∧ scalar = type) [(cell, value)] where
  nodup := List.nodup_singleton _
  sound hmem := by
    cases List.mem_singleton.1 hmem
    exact ⟨type, rfl, rfl⟩
  complete := by
    rintro other scalar ⟨rfl, rfl⟩
    exact ⟨value, h, List.mem_singleton_self _⟩

theorem congr (h : Accounts coerce Source values)
    (hsource : ∀ cell type, Source' cell type ↔ Source cell type) :
    Accounts coerce Source' values where
  nodup := h.nodup
  sound hmem := (h.sound hmem).imp fun type => (hsource _ type).2
  complete hcell := h.complete ((hsource _ _).1 hcell)

/-- **Lists that come from different cells are put together.** -/
theorem append (h : Accounts coerce Source values) (h' : Accounts coerce Source' values')
    (hne : ∀ cell type type', Source cell type → ¬ Source' cell type') :
    Accounts coerce (fun cell type => Source cell type ∨ Source' cell type)
      (values ++ values') where
  nodup := by
    rw [List.map_append, List.nodup_append]
    refine ⟨h.nodup, h'.nodup, fun cell hcell other hother heq => ?_⟩
    subst heq
    obtain ⟨⟨_, value⟩, hmem, rfl⟩ := List.mem_map.1 hcell
    obtain ⟨⟨_, value'⟩, hmem', heq⟩ := List.mem_map.1 hother
    cases heq
    obtain ⟨type, hsource⟩ := h.sound hmem
    obtain ⟨type', hsource'⟩ := h'.sound hmem'
    exact hne _ type type' hsource hsource'
  sound hmem := by
    rcases List.mem_append.1 hmem with hmem | hmem
    · exact (h.sound hmem).imp fun _ => Or.inl
    · exact (h'.sound hmem).imp fun _ => Or.inr
  complete := by
    rintro cell type (hsource | hsource)
    · obtain ⟨value, hvalue, hmem⟩ := h.complete hsource
      exact ⟨value, hvalue, List.mem_append_left _ hmem⟩
    · obtain ⟨value, hvalue, hmem⟩ := h'.complete hsource
      exact ⟨value, hvalue, List.mem_append_right _ hmem⟩

end Accounts

/-- The values that a cell gives, place by place. -/
def placesOf (values : List (Cell × α)) (cell : Cell) : List α :=
  (values.filter (·.1 = cell)).map Prod.snd

theorem placesOf_of_mem {values : List (Cell × α)} {cell : Cell} {value : α}
    (hnodup : (values.map Prod.fst).Nodup) (hmem : (cell, value) ∈ values) :
    placesOf values cell = [value] := by
  induction values with
  | nil => cases hmem
  | cons pair rest ih =>
    rw [List.map_cons, List.nodup_cons] at hnodup
    rcases List.mem_cons.1 hmem with rfl | hmem
    · have hrest : rest.filter (·.1 = cell) = [] := by
        rw [List.filter_eq_nil_iff]
        exact fun other hother heq =>
          hnodup.1 (List.mem_map.2 ⟨other, hother, of_decide_eq_true heq⟩)
      rw [placesOf, List.filter_cons_of_pos (by simp), hrest]
      rfl
    · have hne : pair.1 ≠ cell := fun heq =>
        hnodup.1 (List.mem_map.2 ⟨(cell, value), hmem, heq.symm⟩)
      rw [placesOf, List.filter_cons_of_neg (by simpa using hne)]
      exact ih hnodup.2 hmem

namespace Accounts

variable {coerce : ScalarType → Cell → Except ε α} {Source : Cell → ScalarType → Prop}
  {values : List (Cell × α)} {cell : Cell} {type : ScalarType}

/-- A source gives its value in one place. -/
theorem placesOf_eq (h : Accounts coerce Source values) (hsource : Source cell type) :
    ∃ value, coerce type cell = .ok value ∧ placesOf values cell = [value] := by
  obtain ⟨value, hvalue, hmem⟩ := h.complete hsource
  exact ⟨value, hvalue, placesOf_of_mem h.nodup hmem⟩

/-- Any other cell gives no value. -/
theorem placesOf_eq_nil (h : Accounts coerce Source values) (hnone : ∀ type, ¬ Source cell type) :
    placesOf values cell = [] := by
  rw [placesOf, List.filter_eq_nil_iff.2, List.map_nil]
  rintro ⟨other, value⟩ hmem heq
  obtain ⟨type, hsource⟩ := h.sound hmem
  exact hnone type (of_decide_eq_true heq ▸ hsource)

end Accounts

end Extraction

end TableExport
