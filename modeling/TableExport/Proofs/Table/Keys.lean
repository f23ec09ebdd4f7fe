import TableExport.Proofs.Table.Shape
import TableExport.Proofs.Table.Provenance

/-!
# The keys of records and the values below them

A record has a key for each field that has a value. The keys stand in the order of the labels, and
where a name occurs more than once, in the order of the first label that gives a value
(`Extraction.keys_readRecord`). All single values can be stored (`Storable`), so nothing is written
as null (`Extraction.Fits.nullFree`).

* `EachRecord` says that all records of a value, at any depth, have a property.
* `shape_of_readRecords`: the shape of all that is read.
-/

namespace TableExport

/-! ## Values that can be stored -/

/-- A single value of a type that can be stored: an integer of 64 bits, a finite double, a truth
value, or a text. -/
def Storable (type : ScalarType) : Scalar → Prop
  | .integer value => type = .integer ∧ minInteger ≤ value ∧ value ≤ maxInteger
  | .number value => type = .number ∧ value.isFinite = true
  | .boolean _ => type = .boolean
  | .string _ => type = .string

namespace Cell

variable {cell : Cell}

theorem isFinite_of_toNumber_eq_ok {number : Binary64} (h : cell.toNumber = .ok number) :
    number.isFinite = true := by
  rw [toNumber] at h
  split_ifs at h
  · cases h
    decide
  · cases h
    decide
  · split at h
    · cases h
    · split_ifs at h with hfinite
      cases h
      exact hfinite

theorem mem_range_of_integerPart {number : Binary64} {n : ℤ} (h : integerPart number = .ok n) :
    minInteger ≤ n ∧ n ≤ maxInteger := by
  rw [integerPart] at h
  split at h
  · split_ifs at h with hout habove
    · cases h
      exact ⟨by decide, le_rfl⟩
    · cases h
      omega
  · cases h

theorem mem_range_of_signed {text : String} {n : ℤ} (h : Literal.signed? text = some n) :
    minInteger ≤ n ∧ n ≤ maxInteger :=
  of_decide_eq_true (Option.filter_eq_some_iff.1 h).2

theorem mem_range_of_toInteger {n : ℤ} (h : cell.toInteger = .ok n) :
    minInteger ≤ n ∧ n ≤ maxInteger := by
  rw [toInteger] at h
  split_ifs at h
  · cases h
    decide
  · cases h
    decide
  · split at h
    · rename_i hread
      cases h
      exact mem_range_of_signed hread
    · obtain ⟨number, -, hpart⟩ := bind_eq_ok.1 h
      exact mem_range_of_integerPart hpart
  · split at h
    · rename_i hread
      cases h
      exact mem_range_of_signed hread
    · cases h

/-- **The value of a cell can be stored.** -/
theorem storable_of_coerce {type : ScalarType} {value : Scalar} (h : cell.coerce type = .ok value) :
    Storable type value := by
  rw [coerce.eq_def] at h
  split_ifs at h
  cases type with
  | integer =>
    obtain ⟨n, hread, rfl⟩ := map_eq_ok.1 (mapError_eq_ok.1 h)
    exact ⟨rfl, mem_range_of_toInteger hread⟩
  | number =>
    obtain ⟨number, hread, rfl⟩ := map_eq_ok.1 (mapError_eq_ok.1 h)
    exact ⟨rfl, isFinite_of_toNumber_eq_ok hread⟩
  | boolean =>
    obtain ⟨value, -, rfl⟩ := map_eq_ok.1 (mapError_eq_ok.1 h)
    exact rfl
  | string =>
    obtain ⟨text, -, rfl⟩ := map_eq_ok.1 (mapError_eq_ok.1 h)
    exact rfl

end Cell

/-! ## No null -/

namespace Json

mutual

/-- Nothing in a value is null, nor is it written as null, as a double that is no number is. -/
def NullFree : Json → Prop
  | .null => False
  | .num (.double value) => value.isFinite = true
  | .num (.int _) | .bool _ | .str _ => True
  | .arr items => NullFreeItems items
  | .obj members => NullFreeMembers members

/-- Nothing in the items of an array is null. -/
def NullFreeItems : List Json → Prop
  | [] => True
  | item :: rest => item.NullFree ∧ NullFreeItems rest

/-- Nothing in the members of an object is null. -/
def NullFreeMembers : List (String × Json) → Prop
  | [] => True
  | (_, value) :: rest => value.NullFree ∧ NullFreeMembers rest

end

end Json

namespace Extraction

open Extracted

variable {α ε : Type}

theorem nullFreeItems_toJsonItems {items : List (Extracted Scalar)}
    (h : ∀ item ∈ items, item.toJson.NullFree) : Json.NullFreeItems (toJsonItems items) := by
  induction items with
  | nil => exact trivial
  | cons item rest ih =>
    obtain ⟨hitem, hrest⟩ := List.forall_mem_cons.1 h
    exact ⟨hitem, ih hrest⟩

theorem nullFreeMembers_toJsonFields {fields : Entries (Extracted Scalar)}
    (h : ∀ field ∈ fields, field.2.toJson.NullFree) :
    Json.NullFreeMembers (toJsonFields fields) := by
  induction fields with
  | nil => exact trivial
  | cons field rest ih =>
    obtain ⟨hfield, hrest⟩ := List.forall_mem_cons.1 h
    exact ⟨hfield, ih hrest⟩

mutual

/-- An element that fits holds no null. -/
theorem FitsOne.nullFree {tree : TypeTree} : ∀ {value : Extracted Scalar},
    FitsOne Storable tree value → value.toJson.NullFree
  | _, @FitsOne.scalar _ _ _ _ value _ hvalue => by
    cases value with
    | integer => exact trivial
    | number => exact hvalue.2
    | boolean => exact trivial
    | string => exact trivial
  | _, .record _ _ hnodup hkeys hfields => by
    refine nullFreeMembers_toJsonFields fun field hfield => ?_
    have hget := Entries.get?_of_mem hnodup hfield
    obtain ⟨member, hmember⟩ := Option.isSome_iff_exists.1 (hkeys field.1 (List.mem_map_of_mem hfield))
    exact (hfields _ _ member hget hmember).nullFree

/-- What fits holds no null. -/
theorem Fits.nullFree {tree : TypeTree} : ∀ {value : Extracted Scalar},
    Fits Storable tree value → value.toJson.NullFree
  | _, .one _ hone => hone.nullFree
  | _, .list _ _ hitems => nullFreeItems_toJsonItems fun item hitem => (hitems item hitem).nullFree

end

/-! ## The order of the keys -/

theorem eraseDups_of_nodup {names : List String} (h : names.Nodup) : names.eraseDups = names := by
  induction names with
  | nil => rfl
  | cons name rest ih =>
    obtain ⟨hname, hrest⟩ := List.nodup_cons.1 h
    have hfilter : rest.filter (fun other => !other == name) = rest :=
      List.filter_eq_self.2 fun other hother => by
        simpa using fun heq : other = name => hname (heq ▸ hother)
    rw [List.eraseDups_cons, hfilter, ih hrest]

/-- A name that occurred before does not count again. -/
theorem eraseDups_append_cons {names rest : List String} {name : String} (h : name ∈ names) :
    (names ++ name :: rest).eraseDups = (names ++ rest).eraseDups := by
  rw [List.eraseDups_append, List.eraseDups_append, List.cons_removeAll, if_neg (by simpa using h)]

variable {coerce : ScalarType → Cell → Except ε α} {sheet : Sheet} {type : TypeTree}
  {labels : List Layout} {start stop : ℕ}

/-- Whether a label gives a value to its record. -/
def gives (coerce : ScalarType → Cell → Except ε α) (sheet : Sheet) (type : TypeTree)
    (start stop : ℕ) (label : Layout) : Bool :=
  match type.member? label.name with
  | none => false
  | some member =>
    match readField coerce sheet member label start stop with
    | .ok (some _) => true
    | _ => false

/-- The names of the labels that give a value, each where it first does. -/
def givenNames (coerce : ScalarType → Cell → Except ε α) (sheet : Sheet) (type : TypeTree)
    (labels : List Layout) (start stop : ℕ) : List String :=
  ((labels.filter (gives coerce sheet type start stop)).map Layout.name).eraseDups

theorem addField_eq_put (fields : Entries (Extracted α)) (member : TypeTree)
    (value : Extracted α) : ∃ value', addField fields member value = fields.put member.name value' ∧
      (value' = value ∨ ∃ before items, fields.get? member.name = some (.list before) ∧
        value = .list items ∧ value' = .list (before ++ items)) := by
  rw [addField.eq_def]
  cases value with
  | scalar value => exact ⟨_, rfl, Or.inl rfl⟩
  | record record => exact ⟨_, rfl, Or.inl rfl⟩
  | list items =>
    simp only
    split_ifs
    · split
      · rename_i before hget
        exact ⟨_, rfl, Or.inr ⟨before, items, hget, rfl, rfl⟩⟩
      · exact ⟨_, rfl, Or.inl rfl⟩
    · exact ⟨_, rfl, Or.inl rfl⟩

theorem keys_addField (fields : Entries (Extracted α)) (member : TypeTree) (value : Extracted α) :
    (addField fields member value).keys =
      if member.name ∈ fields.keys then fields.keys else fields.keys ++ [member.name] := by
  obtain ⟨value', heq, -⟩ := addField_eq_put fields member value
  rw [heq, Entries.keys_put]

/-- Names that are given join the keys that are there. -/
theorem keys_readFields {fields fields' : Entries (Extracted α)}
    (h : readFields coerce sheet type labels start stop fields = .ok fields')
    (hnodup : fields.keys.Nodup) :
    fields'.keys = (fields.keys ++
      (labels.filter (gives coerce sheet type start stop)).map Layout.name).eraseDups := by
  induction labels generalizing fields with
  | nil =>
    rw [readFields] at h
    cases h
    simpa using (eraseDups_of_nodup hnodup).symm
  | cons label labels ih =>
    cases hmember : type.member? label.name with
    | none =>
      have hgives : gives coerce sheet type start stop label = false := by rw [gives, hmember]
      rw [readFields_cons_of_none hmember] at h
      rw [List.filter_cons_of_neg (by simp [hgives])]
      exact ih h hnodup
    | some member =>
      have hname : member.name = label.name := by simpa using List.find?_some hmember
      rw [readFields_cons hmember] at h
      obtain ⟨value, hvalue, h⟩ := bind_eq_ok.1 h
      cases value with
      | none =>
        have hgives : gives coerce sheet type start stop label = false := by
          rw [gives, hmember]
          simp only [hvalue]
        rw [List.filter_cons_of_neg (by simp [hgives])]
        exact ih h hnodup
      | some value =>
        have hgives : gives coerce sheet type start stop label = true := by
          rw [gives, hmember]
          simp only [hvalue]
        have hkeys := keys_addField fields member value
        rw [hname] at hkeys
        rw [List.filter_cons_of_pos hgives, List.map_cons]
        split_ifs at hkeys with hmem
        · rw [eraseDups_append_cons hmem, ← hkeys]
          exact ih h (hkeys ▸ hnodup)
        · rw [List.append_cons, ← hkeys]
          exact ih h (hkeys ▸ Entries.nodup_keys_concat.2 ⟨hmem, hnodup⟩)

/-- **The keys of a record are the names of the labels that give a value**, each where it first
does. -/
theorem keys_readRecord {layout : Layout} {fields : Entries (Extracted α)} {last : ℕ}
    (h : readRecord coerce sheet type layout start stop = .ok (fields, last)) :
    fields.keys = givenNames coerce sheet type layout.members start last := by
  rw [readRecord_eq] at h
  obtain ⟨found, hfound, heq⟩ := map_eq_ok.1 h
  cases heq
  exact (keys_readFields hfound List.nodup_nil).trans (by rw [Entries.keys_nil, List.nil_append]; rfl)

/-! ## Records at any depth -/

/-- All records of a value, at any depth, have a property. -/
inductive EachRecord (Q : Entries (Extracted α) → Prop) : Extracted α → Prop
  | scalar (value : α) : EachRecord Q (.scalar value)
  | list {items : List (Extracted α)} : (∀ item ∈ items, EachRecord Q item) →
    EachRecord Q (.list items)
  | record {fields : Entries (Extracted α)} : Q fields →
    (∀ field ∈ fields, EachRecord Q field.2) → EachRecord Q (.record fields)

theorem mem_put {fields : Entries (Extracted α)} {name : String} {value : Extracted α}
    {field : String × Extracted α} (h : field ∈ fields.put name value) :
    field ∈ fields ∨ field = (name, value) := by
  induction fields with
  | nil => exact Or.inr (List.mem_singleton.1 h)
  | cons first rest ih =>
    rw [Entries.put] at h
    split_ifs at h with hname
    · rcases List.mem_cons.1 h with rfl | h
      · exact Or.inr (by rw [hname])
      · exact Or.inl (List.mem_cons_of_mem _ h)
    · rcases List.mem_cons.1 h with rfl | h
      · exact Or.inl List.mem_cons_self
      · exact (ih h).imp_left (List.mem_cons_of_mem _)

theorem eachRecord_addField {Q : Entries (Extracted α) → Prop} {fields : Entries (Extracted α)}
    {member : TypeTree} {value : Extracted α} (h : ∀ field ∈ fields, EachRecord Q field.2)
    (hvalue : EachRecord Q value) : ∀ field ∈ addField fields member value, EachRecord Q field.2 := by
  intro field hfield
  obtain ⟨value', heq, hvalue'⟩ := addField_eq_put fields member value
  rw [heq] at hfield
  rcases mem_put hfield with hfield | rfl
  · exact h field hfield
  · rcases hvalue' with rfl | ⟨before, items, hget, rfl, rfl⟩
    · exact hvalue
    · cases hvalue with
      | list hitems =>
        cases h _ (Entries.mem_of_get? hget) with
        | list hbefore =>
          refine .list fun item hitem => ?_
          exact (List.mem_append.1 hitem).elim (hbefore item) (hitems item)

theorem eachRecord_readFields {Q : Entries (Extracted α) → Prop}
    (hfield : ∀ label ∈ labels, ∀ member, type.member? label.name = some member → ∀ value,
      readField coerce sheet member label start stop = .ok (some value) → EachRecord Q value)
    {fields fields' : Entries (Extracted α)}
    (h : readFields coerce sheet type labels start stop fields = .ok fields')
    (hfields : ∀ field ∈ fields, EachRecord Q field.2) :
    ∀ field ∈ fields', EachRecord Q field.2 := by
  induction labels generalizing fields with
  | nil =>
    rw [readFields] at h
    cases h
    exact hfields
  | cons label labels ih =>
    replace ih := @ih fun inner hinner => hfield inner (List.mem_cons_of_mem _ hinner)
    cases hmember : type.member? label.name with
    | none =>
      rw [readFields_cons_of_none hmember] at h
      exact ih h hfields
    | some member =>
      rw [readFields_cons hmember] at h
      obtain ⟨value, hvalue, h⟩ := bind_eq_ok.1 h
      cases value with
      | none => exact ih h hfields
      | some value =>
        have hnew := hfield label List.mem_cons_self member hmember value hvalue
        exact ih h (eachRecord_addField hfields hnew)

theorem eachRecord_readLeaf {Q : Entries (Extracted α) → Prop} {field : Field}
    {scalar : ScalarType} {column : ℕ} {value : Extracted α}
    (h : readLeaf coerce sheet field scalar column start stop = .ok (some value)) :
    EachRecord Q value := by
  rw [readLeaf] at h
  split at h
  · obtain ⟨values, -, h⟩ := bind_eq_ok.1 h
    obtain ⟨rfl, -⟩ := listOf_eq_some (Except.ok.inj h)
    refine .list fun item hitem => ?_
    obtain ⟨single, -, rfl⟩ := List.mem_map.1 hitem
    exact .scalar single
  · split at h
    · obtain ⟨single, -, h⟩ := map_eq_ok.1 h
      cases h
      exact .scalar single
    · cases h

/-- A record that is read somewhere below a type and its layout, with keys in the order of its
labels. -/
def ReadBelow (coerce : ScalarType → Cell → Except ε α) (sheet : Sheet) (type : TypeTree)
    (layout : Layout) (fields : Entries (Extracted α)) : Prop :=
  ∃ inner label start stop last, Reaches type layout inner label ∧
    readRecord coerce sheet inner label start stop = .ok (fields, last) ∧
    fields.keys = givenNames coerce sheet inner label.members start last

/-- **All records below a record are read below its type.** -/
theorem eachRecord_readRecord {root : TypeTree} {around : Layout} (layout : Layout) :
    ∀ {type : TypeTree} {start stop last : ℕ} {fields : Entries (Extracted α)},
      Reaches root around type layout →
      readRecord coerce sheet type layout start stop = .ok (fields, last) →
      EachRecord (ReadBelow coerce sheet root around) (.record fields) := by
  induction layout using Layout.induction with
  | step layout ih =>
    intro type start stop last fields hreach h
    refine .record ⟨type, layout, start, stop, last, hreach, h, keys_readRecord h⟩ ?_
    rw [readRecord_eq] at h
    obtain ⟨found, hfound, heq⟩ := map_eq_ok.1 h
    cases heq
    refine eachRecord_readFields (fun label hlabel member hmember value hvalue => ?_) hfound nofun
    cases member with
    | leaf field scalar => exact eachRecord_readLeaf hvalue
    | composite field members =>
      have hinner := hreach.trans (Matched.reaches ⟨hlabel, hmember⟩)
      rw [readField] at hvalue
      split at hvalue
      · obtain ⟨items, hitems, hlist⟩ := map_eq_ok.1 hvalue
        obtain ⟨rfl, -⟩ := listOf_eq_some hlist
        refine .list fun item hitem => ?_
        obtain ⟨row, fields, last, hread, -, rfl⟩ := exists_read_of_mem_collect hitems item hitem
        exact ih label hlabel hinner hread
      · obtain ⟨record, hread, hrecord⟩ := map_eq_ok.1 hvalue
        obtain ⟨rfl, -⟩ := recordOf_eq_some hrecord
        exact ih label hlabel hinner hread

end Extraction

open Extraction

theorem storable_of_coerceIn {sheet : Sheet} {type : ScalarType} {cell : Cell} {value : Scalar}
    (h : coerceIn sheet type cell = .ok value) : Storable type value :=
  Cell.storable_of_coerce (mapError_eq_ok.1 h)

/-- **What is read has the shape of its type.** When the records of a range of rows can be read,
each of them, and each record below it, has at least one key and no key twice; its keys are names of
members of its type and stand in the order of the first labels that give a value. Under each key
there is a list, which is not empty, exactly if the member is an array, and the single values can be
stored. Nothing is null. -/
theorem shape_of_readRecords {sheet : Sheet} {type : TypeTree} {layout : Layout} {start stop : ℕ}
    {records : List (Extracted Scalar)}
    (h : readRecords (coerceIn sheet) sheet type layout start stop = .ok records) :
    ∀ record ∈ records, FitsOne Storable type record ∧
      EachRecord (ReadBelow (coerceIn sheet) sheet type layout) record ∧
      record.toJson.NullFree := by
  intro record hrecord
  obtain ⟨row, fields, last, hread, hne, rfl⟩ := exists_read_of_mem_collect h record hrecord
  have hcoerce : ∀ type cell value, coerceIn sheet type cell = .ok value → Storable type value :=
    fun _ _ _ => storable_of_coerceIn
  have hfields := fieldsFit_of_readRecord hcoerce type layout hread
  have hleaf : type.isLeaf = false := by
    cases type with
    | composite => rfl
    | leaf field scalar =>
      obtain ⟨⟨name, value⟩, hfield⟩ := List.exists_mem_of_ne_nil fields hne
      obtain ⟨member, hmember, -⟩ := hfields.fits (Entries.get?_of_mem hfields.nodup hfield)
      cases hmember
  have hfits := hfields.fitsOne hleaf hne
  exact ⟨hfits, eachRecord_readRecord layout (.refl type layout) hread, hfits.nullFree⟩

namespace Stock

/-- Tags on both sides of the name of an item. -/
def taggedLayout : Layout :=
  ⟨TypeTree.rootName, 1, 3, [label "tags" 1, label "id" 2, label "tags" 3]⟩

/-- Items with tags. -/
def tagged : TypeTree :=
  .composite { name := TypeTree.rootName, isArray := true } [tags, field "id"]

/-- An item whose first tag stands behind its name, and one with tags on both sides. -/
def taggedSheet : Sheet := Sheet.ofCells "stock.xlsx" "Stock"
  [cell 2 2 "a", cell 2 3 "red", cell 3 1 "old", cell 3 2 "b", cell 3 3 "blue"]

set_option maxRecDepth 10000 in
/-- The keys follow the labels that give the values. -/
theorem shape_of_tagged :
    readRecords (coerceIn taggedSheet) taggedSheet tagged taggedLayout 2 3 =
      .ok [.record [("id", value "a"), ("tags", .list [value "red"])],
        .record [("tags", .list [value "old", value "blue"]), ("id", value "b")]] ∧
    FitsOne Storable tagged (.record [("id", value "a"), ("tags", .list [value "red"])]) ∧
    ReadBelow (coerceIn taggedSheet) taggedSheet tagged taggedLayout
      [("id", value "a"), ("tags", .list [value "red"])] := by
  have hread : readRecords (coerceIn taggedSheet) taggedSheet tagged taggedLayout 2 3 =
      .ok [.record [("id", value "a"), ("tags", .list [value "red"])],
        .record [("tags", .list [value "old", value "blue"]), ("id", value "b")]] := by cbv
  obtain ⟨hfits, heach, -⟩ := shape_of_readRecords hread _ List.mem_cons_self
  cases heach with
  | record hbelow => exact ⟨hread, hfits, hbelow⟩

end Stock

end TableExport
