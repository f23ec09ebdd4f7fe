import TableExport.Proofs.Table.Places

/-!
# Values as the last step

Which rows make a record and which fields it has is settled by the cells alone. So a table can be
read in two steps: first the cells themselves (`Extraction.cellOf`), then a value for each of them,
in the order in which they stand (`Extraction.inSteps_readRecords`). Cells that fail make the table
fail, and the first of them in that order says how (`Extraction.readRecords_coerceIn`).

* `Sequences` says that an outcome comes from some values, read one after the other.
-/

namespace TableExport

namespace Extraction

open Extracted

variable {α β γ δ ε : Type}

/-! ## Reading values one after the other -/

/-- An outcome is made from the results of reading some values, and fails as the first of them that
fails. -/
structure Sequences (read : α → Except ε β) (values : List α) (result : (α → β) → γ)
    (outcome : Except ε γ) : Prop where
  ok {found : α → β} : (∀ value ∈ values, read value = .ok (found value)) →
    outcome = .ok (result found)
  error {before after : List α} {value : α} {e : ε} : values = before ++ value :: after →
    (∀ other ∈ before, ∃ found, read other = .ok found) → read value = .error e →
    outcome = .error e

namespace Sequences

variable {read : α → Except ε β} {values values' : List α} {result : (α → β) → γ}
  {outcome : Except ε γ}

theorem pure (c : γ) : Sequences read [] (fun _ => c) (.ok c) where
  ok _ := rfl
  error h := by simp at h

theorem one (value : α) : Sequences read [value] (fun found => found value) (read value) where
  ok h := h value (List.mem_singleton_self value)
  error h _ he := by
    obtain ⟨rfl, heq⟩ | ⟨other, rfl, heq⟩ := List.cons_eq_append_iff.1 h
    · cases heq
      exact he
    · cases List.append_eq_nil_iff.1 heq.symm |>.2

theorem map (h : Sequences read values result outcome) (f : γ → δ) :
    Sequences read values (fun found => f (result found)) (outcome.map f) where
  ok hok := by rw [h.ok hok]; rfl
  error hsplit hbefore he := by rw [h.error hsplit hbefore he]; rfl

/-- Results for values that can all be read. -/
theorem exists_found [Nonempty β] (h : ∀ value ∈ values, ∃ found, read value = .ok found) :
    ∃ found : α → β, ∀ value ∈ values, read value = .ok (found value) :=
  ⟨fun value => Classical.epsilon fun found => read value = .ok found,
    fun value hvalue => Classical.epsilon_spec (h value hvalue)⟩

/-- **What is read after something else** comes from its values after the other's. -/
theorem bind [Nonempty β] (next : γ → Except ε δ) (result' : γ → (α → β) → δ)
    (h : Sequences read values result outcome)
    (hnext : ∀ found, Sequences read values' (result' (result found)) (next (result found))) :
    Sequences read (values ++ values') (fun found => result' (result found) found)
      (outcome >>= next) where
  ok {found} hok := by
    rw [h.ok fun value hvalue => hok value (List.mem_append_left _ hvalue)]
    exact (hnext found).ok fun value hvalue => hok value (List.mem_append_right _ hvalue)
  error {before after value e} hsplit hbefore he := by
    -- the value that fails is among the first ones, or all these can be read
    obtain ⟨rest, hvalues, hafter⟩ | ⟨rest, hvalues, hrest⟩ := List.append_eq_append_iff.1 hsplit
    · subst hvalues
      obtain ⟨found, hfound⟩ := exists_found fun other hother =>
        hbefore other (List.mem_append_left _ hother)
      rw [h.ok hfound]
      exact (hnext found).error hafter (fun other hother =>
        hbefore other (List.mem_append_right _ hother)) he
    · cases rest with
      | nil =>
        rw [List.append_nil] at hvalues
        subst hvalues
        obtain ⟨found, hfound⟩ := exists_found hbefore
        rw [h.ok hfound]
        have hnil : ∀ other ∈ ([] : List α), ∃ found, read other = .ok found := nofun
        rw [List.nil_append] at hrest
        exact (hnext found).error (hrest.symm.trans (List.nil_append _).symm) hnil he
      | cons other rest =>
        obtain ⟨rfl, -⟩ := List.cons.inj hrest
        rw [h.error hvalues hbefore he]
        rfl

theorem mapM [Nonempty β] (read : α → Except ε β) (values : List α) :
    Sequences read values (fun found => values.map found) (values.mapM read) := by
  induction values with
  | nil => exact pure []
  | cons value rest ih =>
    rw [List.mapM_cons]
    refine bind (fun first => (first :: ·) <$> rest.mapM read)
      (fun first found => first :: rest.map found) (one value) fun found => ?_
    exact ih.map (found value :: ·)

end Sequences

/-! ## Cells first -/

/-- Reads a cell as itself, with the type that it is to be read as. -/
def cellOf (type : ScalarType) (cell : Cell) : Except ε (ScalarType × Cell) := .ok (type, cell)

/-- A part of a table can be read in two steps: first the cells, which does not fail, and then their
values. -/
def InSteps (coerce : ScalarType → Cell → Except ε β) (cells : Except ε γ)
    (values : γ → List (ScalarType × Cell)) (result : γ → (ScalarType × Cell → β) → δ)
    (outcome : Except ε δ) : Prop :=
  ∃ found, cells = .ok found ∧
    Sequences (fun entry : ScalarType × Cell => coerce entry.1 entry.2) (values found)
      (result found) outcome

theorem InSteps.map {γ' δ' : Type} {coerce : ScalarType → Cell → Except ε β} {cells : Except ε γ}
    {values : γ → List (ScalarType × Cell)} {result : γ → (ScalarType × Cell → β) → δ}
    {outcome : Except ε δ} {values' : γ' → List (ScalarType × Cell)}
    {result' : γ' → (ScalarType × Cell → β) → δ'} (h : InSteps coerce cells values result outcome)
    (f : γ → γ') (g : δ → δ') (hvalues : ∀ c, values' (f c) = values c)
    (hresult : ∀ c found, result' (f c) found = g (result c found)) :
    InSteps coerce (cells.map f) values' result' (outcome.map g) := by
  obtain ⟨c, rfl, hc⟩ := h
  refine ⟨f c, rfl, ?_⟩
  rw [hvalues, show result' (f c) = fun found => g (result c found) from funext (hresult c)]
  exact hc.map g

section Collect

variable {isBlank : ℕ → Bool} {read : ℕ → Except ε (Entries (Extracted α) × ℕ)}

theorem collect_of_read {row stop : ℕ} (hrow : row ≤ stop) (h : isBlank row = false) :
    collect isBlank read row stop = read row >>= fun record =>
      (collect isBlank read (max row record.2 + 1) stop).map ((recordOf record.1).toList ++ ·) := by
  rw [collect_of_filled hrow h]
  refine congrArg _ (funext fun record => ?_)
  obtain ⟨fields, last⟩ := record
  simp only
  cases collect isBlank read (max row last + 1) stop <;> rfl

end Collect

section Cells

variable {coerce : ScalarType → Cell → Except ε β} {sheet : Sheet} [Nonempty β]

theorem inSteps_readLeaf (field : Field) (type : ScalarType) (column start stop : ℕ) :
    InSteps coerce (readLeaf cellOf sheet field type column start stop)
      (fun value => value.elim [] values) (fun value found => value.map (Extracted.map found))
      (readLeaf coerce sheet field type column start stop) := by
  rw [readLeaf, readLeaf]
  split
  · generalize columnCells sheet column start (stop + 1 - start) = cells
    have hcells : cells.mapM (cellOf type) = (.ok (cells.map (type, ·)) : Except ε _) := by
      induction cells with
      | nil => rfl
      | cons cell rest ih =>
        rw [List.mapM_cons, ih]
        rfl
    have hvalues : Sequences (fun entry : ScalarType × Cell => coerce entry.1 entry.2)
        (cells.map (type, ·)) (fun found => (cells.map (type, ·)).map found)
        (cells.mapM (coerce type)) := by
      have h := Sequences.mapM (fun entry : ScalarType × Cell => coerce entry.1 entry.2)
        (cells.map (type, ·))
      rwa [List.mapM_map] at h
    refine ⟨listOf ((cells.map (type, ·)).map .scalar), by rw [hcells]; rfl, ?_⟩
    beta_reduce
    rw [values_listOf, valuesOfItems_scalar]
    convert hvalues.map fun items => listOf (items.map .scalar) using 2 with found
    · rw [← map_listOf]
      simp only [List.map_map]
      rfl
    · cases cells.mapM (coerce type) <;> rfl
  · cases (sheet.get? start column).filter (!·.isBlank) with
    | none => exact ⟨none, rfl, .pure none⟩
    | some cell =>
      exact ⟨some (.scalar (type, cell)), rfl,
        Sequences.map (Sequences.one (type, cell)) fun value => some (Extracted.scalar value)⟩

theorem inSteps_collect {isBlank : ℕ → Bool}
    {cells : ℕ → Except ε (Entries (Extracted (ScalarType × Cell)) × ℕ)}
    {read : ℕ → Except ε (Entries (Extracted β) × ℕ)}
    (hread : ∀ row, InSteps coerce (cells row) (fun record => valuesOfFields record.1)
      (fun record found => (mapFields found record.1, record.2)) (read row)) (row stop : ℕ) :
    InSteps coerce (collect isBlank cells row stop) valuesOfItems
      (fun items found => items.map (Extracted.map found)) (collect isBlank read row stop) := by
  by_cases hlt : stop < row
  · rw [collect_of_lt hlt, collect_of_lt hlt]
    exact ⟨[], rfl, .pure []⟩
  have hrow : row ≤ stop := Nat.le_of_not_lt hlt
  cases hblank : isBlank row with
  | true =>
    rw [collect_of_isBlank hrow hblank, collect_of_isBlank hrow hblank]
    exact inSteps_collect hread (row + 1) stop
  | false =>
    obtain ⟨⟨fields, last⟩, hcells, hfields⟩ := hread row
    obtain ⟨rest, hrest, hothers⟩ : InSteps coerce (collect isBlank cells (max row last + 1) stop)
        _ _ (collect isBlank read (max row last + 1) stop) :=
      inSteps_collect hread (max row last + 1) stop
    rw [collect_of_read hrow hblank, collect_of_read hrow hblank, hcells]
    refine ⟨(recordOf fields).toList ++ rest, ?_, ?_⟩
    · simp only [bind, Except.bind, hrest, Except.map]
    · rw [valuesOfItems_append, valuesOfItems_recordOf]
      have hboth := Sequences.bind
        (fun record => (collect isBlank read (max row record.2 + 1) stop).map
          ((recordOf record.1).toList ++ ·))
        (fun record found => (recordOf record.1).toList ++ rest.map (Extracted.map found))
        hfields fun found => hothers.map ((recordOf (mapFields found fields)).toList ++ ·)
      convert hboth using 2 with found
      beta_reduce
      rw [List.map_append, map_recordOf]
      cases recordOf fields <;> rfl
termination_by stop + 1 - row

theorem inSteps_readFields {type : TypeTree} {labels : List Layout} {start stop : ℕ}
    (hdistinct : (labels.map Layout.name).Nodup)
    (hread : ∀ label ∈ labels, ∀ member, type.member? label.name = some member →
      InSteps coerce (readField cellOf sheet member label start stop)
        (fun value => value.elim [] values) (fun value found => value.map (Extracted.map found))
        (readField coerce sheet member label start stop)) :
    InSteps coerce (readFields cellOf sheet type labels start stop []) valuesOfFields
      (fun fields found => mapFields found fields)
      (readFields coerce sheet type labels start stop []) := by
  induction labels with
  | nil =>
    rw [readFields, readFields]
    exact ⟨[], rfl, .pure []⟩
  | cons label labels ih =>
    have ih' := ih (List.Nodup.of_cons hdistinct) fun inner hinner =>
      hread inner (List.mem_cons_of_mem _ hinner)
    cases hmember : type.member? label.name with
    | none =>
      rw [readFields_cons_of_none hmember, readFields_cons_of_none hmember]
      exact ih'
    | some member =>
      obtain ⟨value, hvalue, hfirst⟩ := hread label List.mem_cons_self member hmember
      obtain ⟨rest, hrest, hothers⟩ := ih'
      rw [readFields_cons_of_distinct hdistinct hmember,
        readFields_cons_of_distinct hdistinct hmember, hvalue]
      refine ⟨value.toList.map (label.name, ·) ++ rest, ?_, ?_⟩
      · simp only [bind, Except.bind, hrest, pure, Except.pure]
      · rw [valuesOfFields_append, valuesOfFields_toList]
        have hboth := Sequences.bind
          (fun value => (readFields coerce sheet type labels start stop []).map
            (value.toList.map (label.name, ·) ++ ·))
          (fun value found => value.toList.map (label.name, ·) ++ mapFields found rest)
          hfirst fun found =>
            hothers.map ((value.map (Extracted.map found)).toList.map (label.name, ·) ++ ·)
        convert hboth using 2 with found
        · cases value <;> simp [mapFields]
        · funext value
          cases readFields coerce sheet type labels start stop [] <;> rfl

theorem inSteps_readField {label : Layout}
    (hbelow : ∀ {type : TypeTree} {start stop : ℕ}, InSteps coerce
      (readRecord cellOf sheet type label start stop) (fun record => valuesOfFields record.1)
      (fun record found => (mapFields found record.1, record.2))
      (readRecord coerce sheet type label start stop)) (member : TypeTree) (start stop : ℕ) :
    InSteps coerce (readField cellOf sheet member label start stop)
      (fun value => value.elim [] values) (fun value found => value.map (Extracted.map found))
      (readField coerce sheet member label start stop) := by
  cases member with
  | leaf field scalar => exact inSteps_readLeaf field scalar label.first start stop
  | composite field members =>
    rw [readField, readField]
    split
    · exact (inSteps_collect (fun _ => hbelow) start stop).map listOf listOf values_listOf
        fun items found => (map_listOf found items).symm
    · exact hbelow.map (fun record => recordOf record.1) (fun record => recordOf record.1)
        (fun record => values_recordOf record.1) fun record found => (map_recordOf found record.1).symm

/-- **A record is read in two steps.** -/
theorem inSteps_readRecord (layout : Layout) : ∀ {type : TypeTree} {start stop : ℕ},
    layout.Distinct → InSteps coerce (readRecord cellOf sheet type layout start stop)
      (fun record => valuesOfFields record.1)
      (fun record found => (mapFields found record.1, record.2))
      (readRecord coerce sheet type layout start stop) := by
  induction layout using Layout.induction with
  | step layout ih =>
    rintro type start stop ⟨hnames, hbelow⟩
    rw [readRecord_eq, readRecord_eq]
    refine (inSteps_readFields hnames fun label hlabel member _ => inSteps_readField
      (fun {_ _ _} => ih label hlabel (hbelow label hlabel)) member start _).map _ _ ?_ ?_
    · exact fun _ => rfl
    · exact fun _ _ => rfl

/-- The records of a range of rows are read in two steps. -/
theorem inSteps_readRecords {type : TypeTree} {layout : Layout} (h : layout.Distinct)
    (start stop : ℕ) :
    InSteps coerce (readRecords cellOf sheet type layout start stop) valuesOfItems
      (fun records found => records.map (Extracted.map found))
      (readRecords coerce sheet type layout start stop) :=
  inSteps_collect (fun _ => inSteps_readRecord layout h) start stop

end Cells

/-- The first of some values that cannot be read. -/
theorem forall_or_exists_first (read : α → Except ε β) (values : List α) :
    (∀ value ∈ values, ∃ found, read value = .ok found) ∨
      ∃ before value after e, values = before ++ value :: after ∧
        (∀ other ∈ before, ∃ found, read other = .ok found) ∧ read value = .error e := by
  induction values with
  | nil => exact Or.inl nofun
  | cons first rest ih =>
    cases hfirst : read first with
    | error e => exact Or.inr ⟨[], first, rest, e, rfl, nofun, hfirst⟩
    | ok found =>
      rcases ih with hrest | ⟨before, value, after, e, rfl, hbefore, he⟩
      · exact Or.inl (List.forall_mem_cons.2 ⟨⟨found, hfirst⟩, hrest⟩)
      · exact Or.inr ⟨first :: before, value, after, e, rfl,
          List.forall_mem_cons.2 ⟨⟨found, hfirst⟩, hbefore⟩, he⟩

/-- An outcome is a result exactly when all values can be read. -/
theorem Sequences.exists_ok_iff [Nonempty β] {read : α → Except ε β} {values : List α}
    {result : (α → β) → γ} {outcome : Except ε γ} (h : Sequences read values result outcome) :
    (∃ c, outcome = .ok c) ↔ ∀ value ∈ values, ∃ found, read value = .ok found := by
  constructor
  · rintro ⟨c, hc⟩
    refine (forall_or_exists_first read values).resolve_right ?_
    rintro ⟨before, value, after, e, hsplit, hbefore, he⟩
    rw [h.error hsplit hbefore he] at hc
    cases hc
  · intro hall
    obtain ⟨found, hfound⟩ := exists_found hall
    exact ⟨_, h.ok hfound⟩

section CoerceIn

variable {sheet : Sheet} {type : ScalarType} {cell : Cell}

theorem coerceIn_of_coercion {cause : CoercionError}
    (h : cell.coerce type = .error (.coercion cause)) : coerceIn sheet type cell =
      .error (.cell ⟨sheet.fileName, sheet.name, cell.reference, cell.value, type, cause⟩) := by
  rw [coerceIn, h]
  rfl

theorem coerceIn_of_overflow {cause : DayOverflow}
    (h : cell.coerce type = .error (.overflow cause)) :
    coerceIn sheet type cell = .error (.overflow cause) := by
  rw [coerceIn, h]
  rfl

theorem coerceIn_eq_ok_iff {value : Scalar} :
    coerceIn sheet type cell = .ok value ↔ cell.coerce type = .ok value :=
  mapError_eq_ok

end CoerceIn

/-- **Values are the last step of reading a table.** Under labels with different names, let
`records` be the records of the cells themselves. The records of a range of rows can be read exactly
if each of these cells has a value; then they are `records` with the values for the cells. Otherwise
the first cell without a value makes the table fail: with its reference, its text and the type that
it was to be read as, or, if it is a date that cannot be shown, with the day count. -/
theorem readRecords_coerceIn (sheet : Sheet) {layout : Layout} (h : layout.Distinct)
    (type : TypeTree) (start stop : ℕ) :
    ∃ records, readRecords cellOf sheet type layout start stop =
        (.ok records : Except TableError _) ∧
      ((∃ result, readRecords (coerceIn sheet) sheet type layout start stop = .ok result) ↔
        ∀ entry ∈ valuesOfItems records, ∃ value, entry.2.coerce entry.1 = .ok value) ∧
      (∀ value : ScalarType × Cell → Scalar,
        (∀ entry ∈ valuesOfItems records, entry.2.coerce entry.1 = .ok (value entry)) →
        readRecords (coerceIn sheet) sheet type layout start stop =
          .ok (records.map (Extracted.map value))) ∧
      ∀ before scalar cell after, valuesOfItems records = before ++ (scalar, cell) :: after →
        (∀ entry ∈ before, ∃ value, entry.2.coerce entry.1 = .ok value) →
        (∀ cause, cell.coerce scalar = .error (.coercion cause) →
          readRecords (coerceIn sheet) sheet type layout start stop = .error (.cell
            ⟨sheet.fileName, sheet.name, cell.reference, cell.value, scalar, cause⟩)) ∧
        ∀ cause, cell.coerce scalar = .error (.overflow cause) →
          readRecords (coerceIn sheet) sheet type layout start stop = .error (.overflow cause) := by
  obtain ⟨records, hrecords, hvalues⟩ : InSteps (coerceIn sheet)
      (readRecords cellOf sheet type layout start stop) _ _ _ := inSteps_readRecords h start stop
  refine ⟨records, hrecords, ?_, fun value hvalue => ?_,
    fun before scalar cell after hsplit hbefore => ⟨fun cause hcause => ?_, fun cause hcause => ?_⟩⟩
  · rw [hvalues.exists_ok_iff]
    simp only [coerceIn_eq_ok_iff]
  · exact hvalues.ok fun entry hentry => coerceIn_eq_ok_iff.2 (hvalue entry hentry)
  · refine hvalues.error hsplit (fun entry hentry => ?_) (coerceIn_of_coercion hcause)
    exact (hbefore entry hentry).imp fun _ => coerceIn_eq_ok_iff.2
  · refine hvalues.error hsplit (fun entry hentry => ?_) (coerceIn_of_overflow hcause)
    exact (hbefore entry hentry).imp fun _ => coerceIn_eq_ok_iff.2

end Extraction

namespace Stock

open Extraction Extracted

/-- Items with pieces, each with a code and a count. -/
def counted : TypeTree :=
  .composite { name := TypeTree.rootName, isArray := true } [field "id",
    .composite { name := "pieces", isArray := true }
      [field "code", .leaf { name := "count" } .integer]]

def countedLayout : Layout :=
  ⟨TypeTree.rootName, 1, 3, [label "id" 1, ⟨"pieces", 2, 3, [label "code" 2, label "count" 3]⟩]⟩

/-- Three pieces, of which the second and the third are not counted in digits. -/
def countedSheet : Sheet := Sheet.ofCells "stock.xlsx" "Stock"
  [cell 3 1 "a", cell 3 2 "x", cell 3 3 "4", cell 4 2 "y", cell 4 3 "two", cell 5 1 "b",
    cell 5 2 "z", cell 5 3 "few"]

theorem distinct_countedLayout : countedLayout.Distinct := by
  have hleaf : ∀ name column, (label name column).Distinct := fun _ _ =>
    .mk List.nodup_nil (List.forall_mem_nil _)
  refine .mk (by decide) ?_
  rw [show countedLayout.members = [_, _] from rfl, List.forall_mem_cons, List.forall_mem_singleton]
  refine ⟨hleaf _ _, .mk (by decide) ?_⟩
  exact List.forall_mem_cons.2 ⟨hleaf _ _, List.forall_mem_singleton.2 (hleaf _ _)⟩

/-- The records of the cells of the three pieces. -/
def countedCells : List (Extracted (ScalarType × Cell)) :=
  [.record [("id", .scalar (.string, cell 3 1 "a")), ("pieces", .list [
      .record [("code", .scalar (.string, cell 3 2 "x")),
        ("count", .scalar (.integer, cell 3 3 "4"))],
      .record [("code", .scalar (.string, cell 4 2 "y")),
        ("count", .scalar (.integer, cell 4 3 "two"))]])],
    .record [("id", .scalar (.string, cell 5 1 "b")), ("pieces", .list [
      .record [("code", .scalar (.string, cell 5 2 "z")),
        ("count", .scalar (.integer, cell 5 3 "few"))]])]]

set_option maxRecDepth 10000 in
/-- The first piece that is not counted in digits makes the table fail. -/
theorem readRecords_counted : countedLayout.Distinct ∧
    readRecords cellOf countedSheet counted countedLayout 3 5 =
      (.ok countedCells : Except TableError _) ∧
    readRecords (coerceIn countedSheet) countedSheet counted countedLayout 3 5 = .error (.cell
      ⟨"stock.xlsx", "Stock", "C4", "two", .integer, .notInteger⟩) := by
  have hcells : readRecords cellOf countedSheet counted countedLayout 3 5 =
      (.ok countedCells : Except TableError _) := by cbv
  obtain ⟨records, hrecords, -, -, hfirst⟩ :=
    readRecords_coerceIn countedSheet distinct_countedLayout counted 3 5
  rw [hcells] at hrecords
  cases hrecords
  have hbefore : ∀ entry ∈ [(.string, cell 3 1 "a"), (.string, cell 3 2 "x"),
      (.integer, cell 3 3 "4"), (.string, cell 4 2 "y")],
      ∃ value, entry.2.coerce entry.1 = .ok value := by
    simp only [List.forall_mem_cons]
    exact ⟨⟨.string "a", by cbv⟩, ⟨.string "x", by cbv⟩, ⟨.integer 4, by decide +kernel⟩,
      ⟨.string "y", by cbv⟩, List.forall_mem_nil _⟩
  have hfault := (hfirst _ .integer (cell 4 3 "two") _ rfl hbefore).1 .notInteger (by cbv)
  refine ⟨distinct_countedLayout, hcells, ?_⟩
  rw [hfault]
  cbv

/-! A date beyond the day arithmetic -/

/-- Days in one column. -/
def days : TypeTree := .composite { name := TypeTree.rootName, isArray := true } [field "day"]

def daysLayout : Layout := ⟨TypeTree.rootName, 1, 1, [label "day" 1]⟩

/-- A date that no calendar has. -/
def farDate : Cell := ⟨2, 1, .serial .date .from1900, "1e15"⟩

def daysSheet : Sheet := Sheet.ofCells "stock.xlsx" "Stock" [cell 1 1 "day", farDate]

set_option maxRecDepth 10000 in
/-- **A date beyond the day arithmetic is no fault of its cell:** the cell has no value as a text,
and the table fails without naming it. -/
theorem readRecords_farDate : daysLayout.Distinct ∧
    readRecords cellOf daysSheet days daysLayout 2 2 =
      (.ok [.record [("day", .scalar (.string, farDate))]] : Except TableError _) ∧
    readRecords (coerceIn daysSheet) daysSheet days daysLayout 2 2 =
      .error (.overflow ⟨1000000000000000⟩) ∧
    ∀ fault, readRecords (coerceIn daysSheet) daysSheet days daysLayout 2 2 ≠
      .error (.cell fault) := by
  have hleaf : (label "day" 1).Distinct := .mk List.nodup_nil (List.forall_mem_nil _)
  have hdistinct : daysLayout.Distinct := .mk (by decide) (List.forall_mem_singleton.2 hleaf)
  have hcells : readRecords cellOf daysSheet days daysLayout 2 2 =
      (.ok [.record [("day", .scalar (.string, farDate))]] : Except TableError _) := by cbv
  have hfar : farDate.coerce .string = .error (.overflow ⟨1000000000000000⟩) := by decide +kernel
  obtain ⟨records, hrecords, hvalues⟩ : InSteps (coerceIn daysSheet)
      (readRecords cellOf daysSheet days daysLayout 2 2) _ _ _ :=
    inSteps_readRecords hdistinct 2 2
  rw [hcells] at hrecords
  cases hrecords
  have hfails := hvalues.error (List.nil_append _).symm (List.forall_mem_nil _)
    (coerceIn_of_overflow hfar)
  refine ⟨hdistinct, hcells, hfails, fun fault => ?_⟩
  rw [hfails]
  intro h
  cases h

end Stock

end TableExport
