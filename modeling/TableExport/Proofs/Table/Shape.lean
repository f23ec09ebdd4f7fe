import TableExport.Proofs.Entries
import TableExport.Proofs.Results
import TableExport.Proofs.Table.Reading

/-!
# The shape of what is read

Whatever the labels of a sheet are and however often they occur, what is read under them has the
shape of its type: a leaf holds values of its scalar type, a composite holds records whose keys are
names of its members, an array field holds a list, and there is neither an empty list nor an empty
record.

* `Fits` says that a value has the shape of a field, `FitsOne` that of one element of it.
* `FieldsFit` is the invariant of the fields of a record while they are read; `FieldsFit.add` adds
  the value of one more field.
* `fieldsFit_of_readRecord`: what is read fits.
-/

namespace TableExport

namespace Extraction

variable {α ε : Type} {typed : ScalarType → α → Prop}

mutual

/-- One element of a field has the shape of its type, where `typed` says which values belong to a
scalar type. -/
inductive FitsOne (typed : ScalarType → α → Prop) : TypeTree → Extracted α → Prop
  | scalar {tree : TypeTree} {type : ScalarType} {value : α} :
    tree.scalarType? = some type → typed type value → FitsOne typed tree (.scalar value)
  | record {tree : TypeTree} {fields : Entries (Extracted α)} :
    tree.isLeaf = false → fields ≠ [] → fields.keys.Nodup →
    (∀ name ∈ fields.keys, (tree.member? name).isSome) →
    (∀ name value member, fields.get? name = some value → tree.member? name = some member →
      Fits typed member value) →
    FitsOne typed tree (.record fields)

/-- A value has the shape of a field. -/
inductive Fits (typed : ScalarType → α → Prop) : TypeTree → Extracted α → Prop
  | one {tree : TypeTree} {value : Extracted α} :
    tree.isArray = false → FitsOne typed tree value → Fits typed tree value
  | list {tree : TypeTree} {items : List (Extracted α)} :
    tree.isArray = true → items ≠ [] → (∀ item ∈ items, FitsOne typed tree item) →
    Fits typed tree (.list items)

end

/-- The shape of an element depends on the type only. -/
theorem FitsOne.of_withField {tree : TypeTree} {field : Field} {value : Extracted α}
    (h : FitsOne typed (tree.withField field) value) : FitsOne typed tree value := by
  cases tree with
  | leaf own type =>
    cases h with
    | scalar htype htyped => exact FitsOne.scalar htype htyped
    | record hleaf => cases hleaf
  | composite own members =>
    cases h with
    | scalar htype => cases htype
    | record hleaf hne hnodup hkeys hfields => exact FitsOne.record hleaf hne hnodup hkeys hfields

/-! ## Records -/

/-- The fields of a record have different names, and each has the shape of the member that it is
named after. -/
structure FieldsFit (typed : ScalarType → α → Prop) (type : TypeTree)
    (fields : Entries (Extracted α)) : Prop where
  nodup : fields.keys.Nodup
  fits {name : String} {value : Extracted α} : fields.get? name = some value →
    ∃ member, type.member? name = some member ∧ Fits typed member value

theorem fieldsFit_nil (type : TypeTree) : FieldsFit typed type [] :=
  ⟨List.nodup_nil, fun h => by cases h⟩

theorem FieldsFit.fitsOne {type : TypeTree} {fields : Entries (Extracted α)}
    (h : FieldsFit typed type fields) (hleaf : type.isLeaf = false) (hne : fields ≠ []) :
    FitsOne typed type (.record fields) := by
  refine FitsOne.record hleaf hne h.nodup (fun name hname => ?_) fun name value member hget hm => ?_
  · obtain ⟨value, hvalue⟩ := Entries.exists_get?_of_mem_keys hname
    obtain ⟨member, hmember, -⟩ := h.fits hvalue
    rw [hmember]
    rfl
  · obtain ⟨other, hother, hfits⟩ := h.fits hget
    rw [hm] at hother
    cases hother
    exact hfits

/-- A field is put in its place, with the items that it had before. -/
theorem FieldsFit.addField_eq {type member : TypeTree} {fields : Entries (Extracted α)}
    {value : Extracted α} (h : FieldsFit typed type fields)
    (hmember : type.member? member.name = some member) (hvalue : Fits typed member value) :
    ∃ value', addField fields member value = fields.put member.name value' ∧
      Fits typed member value' := by
  cases hvalue with
  | one harray hone =>
    refine ⟨value, ?_, Fits.one harray hone⟩
    rw [addField.eq_def]
    cases value with
    | list items => simp only [harray, Bool.false_eq_true, if_false]
    | _ => rfl
  | @list _ items harray hne hitems =>
    rw [addField.eq_def]
    simp only [harray, if_true]
    split
    · rename_i before hget
      refine ⟨.list (before ++ items), rfl, Fits.list harray ?_ fun item hi => ?_⟩
      · exact List.append_ne_nil_of_right_ne_nil _ hne
      · obtain ⟨other, hother, hfits⟩ := h.fits hget
        rw [hmember] at hother
        cases hother
        rcases List.mem_append.1 hi with hi | hi
        · cases hfits with
          | one harray' => rw [harray] at harray'; cases harray'
          | list _ _ hbefore => exact hbefore item hi
        · exact hitems item hi
    · exact ⟨.list items, rfl, Fits.list harray hne hitems⟩

/-- **A field that is added fits with the others.** -/
theorem FieldsFit.add {type member : TypeTree} {fields : Entries (Extracted α)}
    {value : Extracted α} (h : FieldsFit typed type fields)
    (hmember : type.member? member.name = some member) (hvalue : Fits typed member value) :
    FieldsFit typed type (addField fields member value) := by
  obtain ⟨value', hadd, hvalue'⟩ := h.addField_eq hmember hvalue
  rw [hadd]
  refine ⟨?_, fun {name other} hget => ?_⟩
  · rw [Entries.keys_put]
    split
    · exact h.nodup
    · rename_i hnew
      exact Entries.nodup_keys_concat.2 ⟨hnew, h.nodup⟩
  · rw [Entries.get?_put] at hget
    split at hget
    · rename_i hname
      cases hget
      exact ⟨member, hname ▸ hmember, hvalue'⟩
    · exact h.fits hget

/-! ## Lists -/

variable {isBlank : Nat → Bool} {read : Nat → Except ε (Entries (Extracted α) × Nat)}

/-- The items that are collected are the records that were read. -/
theorem exists_read_of_mem_collect {row stop : Nat} {items : List (Extracted α)}
    (h : collect isBlank read row stop = .ok items) :
    ∀ item ∈ items, ∃ start fields last, read start = .ok (fields, last) ∧ fields ≠ [] ∧
      item = .record fields := by
  intro item hitem
  rw [collect] at h
  split at h
  · cases h
    cases hitem
  · split at h
    · exact exists_read_of_mem_collect h item hitem
    · obtain ⟨⟨fields, last⟩, hread, h⟩ := bind_eq_ok.1 h
      obtain ⟨rest, hrest, h⟩ := bind_eq_ok.1 h
      cases h
      rcases List.mem_append.1 hitem with hitem | hitem
      · rw [recordOf] at hitem
        split at hitem
        · cases hitem
        · rename_i hne
          exact ⟨row, fields, last, hread, fun heq => hne (by rw [heq]; rfl), by simpa using hitem⟩
      · exact exists_read_of_mem_collect hrest item hitem
termination_by stop + 1 - row

theorem listOf_eq_some {items : List (Extracted α)} {value : Extracted α}
    (h : listOf items = some value) : value = .list items ∧ items ≠ [] := by
  rw [listOf] at h
  split at h
  · cases h
  · rename_i hne
    cases h
    exact ⟨rfl, fun heq => hne (by rw [heq]; rfl)⟩

theorem recordOf_eq_some {fields : Entries (Extracted α)} {value : Extracted α}
    (h : recordOf fields = some value) : value = .record fields ∧ fields ≠ [] := by
  rw [recordOf] at h
  split at h
  · cases h
  · rename_i hne
    cases h
    exact ⟨rfl, fun heq => hne (by rw [heq]; rfl)⟩

/-! ## Fields -/

variable {coerce : ScalarType → Cell → Except ε α} {sheet : Sheet}

theorem fits_of_readLeaf
    (hcoerce : ∀ type cell value, coerce type cell = .ok value → typed type value)
    {field : Field} {type : ScalarType} {column start stop : Nat} {value : Extracted α}
    (h : readLeaf coerce sheet field type column start stop = .ok (some value)) :
    Fits typed (.leaf field type) value := by
  rw [readLeaf] at h
  split at h
  · rename_i harray
    obtain ⟨values, hvalues, h⟩ := bind_eq_ok.1 h
    obtain ⟨rfl, hne⟩ := listOf_eq_some (Except.ok.inj h)
    refine Fits.list harray hne fun item hitem => ?_
    obtain ⟨single, hsingle, rfl⟩ := List.mem_map.1 hitem
    obtain ⟨cell, -, hcell⟩ := exists_of_mem_mapM hvalues single hsingle
    exact FitsOne.scalar rfl (hcoerce type cell single hcell)
  · rename_i harray
    split at h
    · rename_i cell _
      obtain ⟨single, hsingle, h⟩ := map_eq_ok.1 h
      cases h
      exact Fits.one (Bool.eq_false_iff.2 harray)
        (FitsOne.scalar rfl (hcoerce type cell single hsingle))
    · cases h

/-- If the records below a field have the shape of its type, its value has the shape of the
field. -/
theorem fits_of_records {field : Field} {members : List TypeTree} {label : Layout}
    {start stop : Nat} {value : Extracted α}
    (hrecord : ∀ {start fields last},
      readRecord coerce sheet (.composite field members) label start stop = .ok (fields, last) →
      FieldsFit typed (.composite field members) fields)
    (h : readField coerce sheet (.composite field members) label start stop = .ok (some value)) :
    Fits typed (.composite field members) value := by
  rw [readField] at h
  split at h
  · rename_i harray
    obtain ⟨items, hitems, h⟩ := map_eq_ok.1 h
    obtain ⟨rfl, hne⟩ := listOf_eq_some h
    refine Fits.list harray hne fun item hitem => ?_
    obtain ⟨row, fields, last, hread, hfields, rfl⟩ := exists_read_of_mem_collect hitems item hitem
    exact (hrecord hread).fitsOne rfl hfields
  · rename_i harray
    obtain ⟨⟨fields, last⟩, hread, h⟩ := map_eq_ok.1 h
    obtain ⟨rfl, hfields⟩ := recordOf_eq_some h
    exact Fits.one (Bool.eq_false_iff.2 harray) ((hrecord hread).fitsOne rfl hfields)

mutual

/-- **The record that is read at a row has the shape of its type.** -/
theorem fieldsFit_of_readRecord
    (hcoerce : ∀ type cell value, coerce type cell = .ok value → typed type value)
    (type : TypeTree) : ∀ (layout : Layout) {start stop last : Nat}
    {fields : Entries (Extracted α)},
    readRecord coerce sheet type layout start stop = .ok (fields, last) →
    FieldsFit typed type fields
  | ⟨_, _, _, labels⟩, _, _, _, _, h => by
    rw [readRecord] at h
    obtain ⟨read, hread, h⟩ := bind_eq_ok.1 h
    cases h
    exact fieldsFit_of_readFields hcoerce type labels hread (fieldsFit_nil type)

/-- The fields under further labels are added one after the other. -/
theorem fieldsFit_of_readFields
    (hcoerce : ∀ type cell value, coerce type cell = .ok value → typed type value)
    (type : TypeTree) : ∀ (labels : List Layout) {start stop : Nat}
    {fields fields' : Entries (Extracted α)},
    readFields coerce sheet type labels start stop fields = .ok fields' →
    FieldsFit typed type fields → FieldsFit typed type fields'
  | [], _, _, _, _, h, hfields => by
    rw [readFields] at h
    cases h
    exact hfields
  | label :: rest, start, stop, fields, fields', h, hfields => by
    cases hmember : type.member? label.name with
    | none =>
      rw [readFields_cons_of_none hmember] at h
      exact fieldsFit_of_readFields hcoerce type rest h hfields
    | some member =>
      rw [readFields_cons hmember] at h
      obtain ⟨value, hvalue, h⟩ := bind_eq_ok.1 h
      refine fieldsFit_of_readFields hcoerce type rest h ?_
      cases value with
      | none => exact hfields
      | some value =>
        have hname : member.name = label.name := by
          simpa using List.find?_some hmember
        refine hfields.add (hname ▸ hmember) ?_
        cases member with
        | leaf field scalar => exact fits_of_readLeaf hcoerce hvalue
        | composite field members =>
          exact fits_of_records (fieldsFit_of_readRecord hcoerce _ label) hvalue

end

/-- **The rows of a table have the shape of its type.** -/
theorem fitsOne_of_readTable
    (hcoerce : ∀ type cell value, coerce type cell = .ok value → typed type value)
    {type : TypeTree} (hleaf : type.isLeaf = false) {layout : Layout} {headerRows : Nat}
    {records : List (Extracted α)}
    (h : readTable coerce sheet type layout headerRows = .ok records) :
    ∀ record ∈ records, FitsOne typed type record := by
  intro record hrecord
  obtain ⟨row, fields, last, hread, hfields, rfl⟩ := exists_read_of_mem_collect h record hrecord
  exact (fieldsFit_of_readRecord hcoerce type layout hread).fitsOne hleaf hfields

end Extraction

/-! ## Tables -/

/-- A value belongs to a scalar type. -/
def OfType (type : ScalarType) (value : Scalar) : Prop := value.type = type

/-- A cell is read as a value of the type that is asked for. -/
theorem ofType_of_coerce {type : ScalarType} {cell : Cell} {value : Scalar}
    (h : cell.coerce type = .ok value) : OfType type value := by
  rw [Cell.coerce.eq_def] at h
  split at h
  · cases h
  · cases type with
    | integer =>
      cases hread : cell.toInteger <;> rw [hread] at h <;> cases h
      rfl
    | number =>
      cases hread : cell.toNumber <;> rw [hread] at h <;> cases h
      rfl
    | boolean =>
      cases hread : cell.toBoolean <;> rw [hread] at h <;> cases h
      rfl
    | string =>
      cases hread : cell.display <;> rw [hread] at h <;> cases h
      rfl

theorem ofType_of_coerceIn {sheet : Sheet} {type : ScalarType} {cell : Cell} {value : Scalar}
    (h : coerceIn sheet type cell = .ok value) : OfType type value := by
  cases hcoerce : cell.coerce type with
  | error e =>
    rw [coerceIn, hcoerce] at h
    cases h
  | ok found =>
    rw [coerceIn, hcoerce] at h
    cases h
    exact ofType_of_coerce hcoerce

/-- **The rows that are extracted from a sheet have the shape of the type of the table.** -/
theorem fitsOne_of_extractTable {sheet : Sheet} {type : TypeTree} (hleaf : type.isLeaf = false)
    {records : List (Extracted Scalar)} (h : extractTable sheet type = .ok records) :
    ∀ record ∈ records, Extraction.FitsOne OfType type record := by
  have hcoerce : ∀ type cell value, coerceIn sheet type cell = .ok value → OfType type value :=
    fun _ _ _ => ofType_of_coerceIn
  rw [extractTable] at h
  obtain ⟨layout, -, h⟩ := bind_eq_ok.1 h
  obtain ⟨-, -, h⟩ := bind_eq_ok.1 h
  exact Extraction.fitsOne_of_readTable hcoerce hleaf h

end TableExport
