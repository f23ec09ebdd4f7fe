import TableExport.Proofs.Entries
import TableExport.Table.Extraction

/-!
# How records are read

What the parts of the walk over the rows of a table give, each in terms of what it calls.

* `nextFilled?_eq_some`, `nextFilled?_eq_none`: the search for the next row in which a column has a
  value.
* `recordEnd_spec`: a record ends before the next row in which another one starts, and
  `recordEnd_eq`: there is only one such end.
* `collect_of_blank`, `collect_cons`: the records of a range of rows.
* `readFields_cons`: the fields of a record, one label after the other, and
  `readFields_cons_of_distinct`: under labels with different names each field stands for itself.
-/

namespace TableExport

namespace Extraction

variable {α ε : Type} {sheet : Sheet}

/-! ## The next value of a column -/

theorem nextFilled?_eq_none {column row count : Nat} :
    nextFilled? sheet column row count = none ↔
      ∀ other, row ≤ other → other < row + count → sheet.isBlank other column = true := by
  induction count generalizing row with
  | zero =>
    simp only [nextFilled?, true_iff]
    intro other h₁ h₂
    omega
  | succ count ih =>
    rw [nextFilled?]
    by_cases hrow : sheet.isBlank row column = true
    · rw [if_pos hrow, ih]
      constructor
      · intro h other h₁ h₂
        by_cases heq : other = row
        · exact heq ▸ hrow
        · exact h other (by omega) (by omega)
      · intro h other h₁ h₂
        exact h other (by omega) (by omega)
    · rw [if_neg hrow]
      simp only [reduceCtorEq, false_iff]
      intro h
      exact hrow (h row (le_refl _) (by omega))

theorem nextFilled?_eq_some {column row count next : Nat}
    (h : nextFilled? sheet column row count = some next) :
    (row ≤ next ∧ next < row + count) ∧ sheet.isBlank next column = false ∧
      ∀ other, row ≤ other → other < next → sheet.isBlank other column = true := by
  induction count generalizing row with
  | zero => cases h
  | succ count ih =>
    rw [nextFilled?] at h
    by_cases hrow : sheet.isBlank row column = true
    · rw [if_pos hrow] at h
      obtain ⟨hrange, hnext, hbefore⟩ := ih h
      refine ⟨by omega, hnext, fun other h₁ h₂ => ?_⟩
      by_cases heq : other = row
      · exact heq ▸ hrow
      · exact hbefore other (by omega) h₂
    · rw [if_neg hrow] at h
      cases h
      exact ⟨by omega, by simpa using hrow, fun other h₁ h₂ => by omega⟩

/-- A blank column has no cells with a value. -/
theorem columnCells_of_blank {column row count : Nat}
    (h : ∀ other, row ≤ other → other < row + count → sheet.isBlank other column = true) :
    columnCells sheet column row count = [] := by
  induction count generalizing row with
  | zero => rfl
  | succ count ih =>
    have hrow : (sheet.get? row column).filter (!·.isBlank) = none := by
      have hblank := h row (le_refl _) (by omega)
      cases hget : sheet.get? row column with
      | none => rfl
      | some cell => simpa [Sheet.isBlank, hget] using hblank
    rw [columnCells, hrow]
    exact ih fun other h₁ h₂ => h other (by omega) (by omega)

theorem columnCells_of_some {column row count : Nat} {cell : Cell}
    (h : (sheet.get? row column).filter (!·.isBlank) = some cell) :
    columnCells sheet column row (count + 1) =
      cell :: columnCells sheet column (row + 1) count := by
  rw [columnCells, h]

/-! ## The end of a record -/

/-- Some single-valued field of a type has a value in a row. -/
def Starts (sheet : Sheet) (type : TypeTree) (labels : List Layout) (row : Nat) : Prop :=
  ∃ label ∈ labels, ∃ member, type.member? label.name = some member ∧ member.isArray = false ∧
    sheet.isBlank row label.first = false

theorem starts_cons {type : TypeTree} {label : Layout} {labels : List Layout} {row : Nat} :
    Starts sheet type (label :: labels) row ↔
      Starts sheet type [label] row ∨ Starts sheet type labels row := by
  simp [Starts]

theorem recordEnd_cons (type : TypeTree) (label : Layout) (labels : List Layout)
    (start stop : Nat) :
    recordEnd sheet type (label :: labels) start stop =
      recordEnd sheet type labels start (recordEnd sheet type [label] start stop) := rfl

/-- One field ends a record before its own next value. -/
theorem recordEnd_singleton (sheet : Sheet) (type : TypeTree) (label : Layout) {start stop : Nat}
    (h : start ≤ stop) :
    (start ≤ recordEnd sheet type [label] start stop ∧
      recordEnd sheet type [label] start stop ≤ stop) ∧
    (∀ row, start < row → row ≤ recordEnd sheet type [label] start stop →
      ¬ Starts sheet type [label] row) ∧
    (recordEnd sheet type [label] start stop < stop →
      Starts sheet type [label] (recordEnd sheet type [label] start stop + 1)) := by
  have hstarts : ∀ row, Starts sheet type [label] row ↔
      ∃ member, type.member? label.name = some member ∧ member.isArray = false ∧
        sheet.isBlank row label.first = false := by
    intro row
    simp [Starts]
  simp only [hstarts, recordEnd, List.foldl_cons, List.foldl_nil]
  cases hmember : type.member? label.name with
  | none => simp [h]
  | some member =>
    by_cases harray : member.isArray = true
    · simp [harray, h]
    · simp only [if_neg harray]
      cases hnext : nextFilled? sheet label.first (start + 1) (stop - start) with
      | none =>
        rw [nextFilled?_eq_none] at hnext
        refine ⟨⟨h, le_refl _⟩, fun row h₁ h₂ => ?_, fun hlt => absurd hlt (lt_irrefl _)⟩
        simp only at h₂
        rintro ⟨-, -, -, hfilled⟩
        rw [hnext row (by omega) (by omega)] at hfilled
        cases hfilled
      | some next =>
        obtain ⟨hrange, hfilled, hbefore⟩ := nextFilled?_eq_some hnext
        simp only
        refine ⟨by omega, fun row h₁ h₂ => ?_, fun _ => ⟨member, rfl, by simpa using harray, ?_⟩⟩
        · rintro ⟨-, -, -, hrow⟩
          rw [hbefore row (by omega) (by omega)] at hrow
          cases hrow
        · rwa [Nat.sub_add_cancel (by omega)]

/-- **A record ends before the next row in which another one starts**, or with the range of rows
that it lies in. -/
theorem recordEnd_spec (sheet : Sheet) (type : TypeTree) (labels : List Layout) {start stop : Nat}
    (h : start ≤ stop) :
    (start ≤ recordEnd sheet type labels start stop ∧
      recordEnd sheet type labels start stop ≤ stop) ∧
    (∀ row, start < row → row ≤ recordEnd sheet type labels start stop →
      ¬ Starts sheet type labels row) ∧
    (recordEnd sheet type labels start stop < stop →
      Starts sheet type labels (recordEnd sheet type labels start stop + 1)) := by
  induction labels generalizing stop with
  | nil =>
    refine ⟨⟨h, le_refl _⟩, fun row _ _ => ?_, fun hlt => absurd hlt (lt_irrefl _)⟩
    rintro ⟨label, hl, -⟩
    cases hl
  | cons label labels ih =>
    obtain ⟨hfirst, hnone, hstart⟩ := recordEnd_singleton sheet type label h
    obtain ⟨hrest, hnone', hstart'⟩ := ih hfirst.1
    rw [recordEnd_cons]
    refine ⟨⟨hrest.1, hrest.2.trans hfirst.2⟩, fun row h₁ h₂ => ?_, fun hlt => ?_⟩
    · rw [starts_cons, not_or]
      exact ⟨hnone row h₁ (h₂.trans hrest.2), hnone' row h₁ h₂⟩
    · rw [starts_cons]
      rcases hrest.2.lt_or_eq with hlt' | heq
      · exact Or.inr (hstart' hlt')
      · rw [heq] at hlt ⊢
        exact Or.inl (hstart hlt)

/-- A record has one end only. -/
theorem recordEnd_eq {type : TypeTree} {labels : List Layout} {start last stop : Nat}
    (hle : start ≤ last ∧ last ≤ stop)
    (hnone : ∀ row, start < row → row ≤ last → ¬ Starts sheet type labels row)
    (hnext : last < stop → Starts sheet type labels (last + 1)) :
    recordEnd sheet type labels start stop = last := by
  obtain ⟨hrange, hnone', hnext'⟩ :=
    recordEnd_spec sheet type labels (hle.1.trans hle.2)
  rcases lt_trichotomy (recordEnd sheet type labels start stop) last with hlt | heq | hlt
  · exact absurd (hnext' (by omega)) (hnone _ (by omega) hlt)
  · exact heq
  · exact absurd (hnext (by omega)) (hnone' _ (by omega) hlt)

/-! ## Collecting records -/

variable {isBlank : Nat → Bool} {read : Nat → Except ε (Entries (Extracted α) × Nat)}

theorem collect_of_lt {row stop : Nat} (h : stop < row) :
    collect isBlank read row stop = .ok [] := by
  rw [collect, if_pos h]

/-- Blank rows hold no records. -/
theorem collect_of_blank {row stop : Nat}
    (h : ∀ other, row ≤ other → other ≤ stop → isBlank other = true) :
    collect isBlank read row stop = .ok [] := by
  by_cases hlt : stop < row
  · exact collect_of_lt hlt
  · rw [collect, if_neg hlt, if_pos (h row (le_refl _) (by omega))]
    exact collect_of_blank fun other h₁ h₂ => h other (by omega) h₂
termination_by stop + 1 - row

/-- A record is read at a row that is not blank, and the next one from the row after its last. -/
theorem collect_cons {row stop : Nat} (last : Nat) {fields : Entries (Extracted α)}
    {rest : List (Extracted α)} (hrow : row ≤ stop) (hblank : isBlank row = false)
    (hfields : fields ≠ []) (hread : read row = .ok (fields, last)) (hlast : row ≤ last)
    (hrest : collect isBlank read (last + 1) stop = .ok rest) :
    collect isBlank read row stop = .ok (.record fields :: rest) := by
  have hrecord : recordOf fields = some (.record fields) := by
    simp [recordOf, hfields]
  rw [collect, if_neg (by omega), if_neg (by simp [hblank]), hread]
  simp [bind, Except.bind, Nat.max_eq_right hlast, hrest, hrecord, pure, Except.pure]

/-! ## Reading fields -/

variable (coerce : ScalarType → Cell → Except ε α)

/-- Reads the field of a label. -/
def readField (sheet : Sheet) (member : TypeTree) (label : Layout) (start stop : Nat) :
    Except ε (Option (Extracted α)) :=
  match member with
  | .leaf field scalar => readLeaf coerce sheet field scalar label.first start stop
  | .composite field _ =>
    if field.isArray then
      (collect (fun row => sheet.isBlankRow row label.first label.last)
        (fun row => readRecord coerce sheet member label row stop) start stop).map listOf
    else (readRecord coerce sheet member label start stop).map fun record => recordOf record.1

variable {coerce}

theorem readRecord_eq (type : TypeTree) (label : Layout) (start stop : Nat) :
    readRecord coerce sheet type label start stop =
      (readFields coerce sheet type label.members start
        (recordEnd sheet type label.members start stop) []).map fun fields =>
          (fields, recordEnd sheet type label.members start stop) := by
  obtain ⟨name, first, last, labels⟩ := label
  rw [readRecord]
  cases readFields coerce sheet type labels start (recordEnd sheet type labels start stop) [] <;>
    rfl

/-- A label that names no field is passed over. -/
theorem readFields_cons_of_none {type : TypeTree} {label : Layout} {labels : List Layout}
    {start stop : Nat} {fields : Entries (Extracted α)} (h : type.member? label.name = none) :
    readFields coerce sheet type (label :: labels) start stop fields =
      readFields coerce sheet type labels start stop fields := by
  rw [readFields, h]

/-- The value of a field is added to its record before the next field is read. -/
theorem readFields_cons {type member : TypeTree} {label : Layout} {labels : List Layout}
    {start stop : Nat} {fields : Entries (Extracted α)}
    (h : type.member? label.name = some member) :
    readFields coerce sheet type (label :: labels) start stop fields =
      (readField coerce sheet member label start stop).bind fun value =>
        readFields coerce sheet type labels start stop
          (value.elim fields (addField fields member)) := by
  rw [readFields, h]
  cases member with
  | leaf field scalar => rfl
  | composite field members =>
    simp only [readField]
    split <;> rfl

/-! ## Fields under different labels -/

/-- The value of a new field goes to the end of its record. -/
theorem addField_of_not_mem {fields : Entries (Extracted α)} {member : TypeTree}
    (h : member.name ∉ fields.keys) (value : Extracted α) :
    addField fields member value = fields ++ [(member.name, value)] := by
  rw [← Entries.put_of_not_mem h]
  cases value with
  | scalar value => rfl
  | record value => rfl
  | list items =>
    rw [addField, Entries.get?_eq_none.2 h]
    split <;> rfl

/-- A new field goes to the end of its record, if it has a value. -/
theorem elim_addField {fields : Entries (Extracted α)} {member : TypeTree}
    (h : member.name ∉ fields.keys) (value : Option (Extracted α)) :
    value.elim fields (addField fields member) = fields ++ value.toList.map (member.name, ·) := by
  cases value with
  | none => exact (List.append_nil fields).symm
  | some value => exact addField_of_not_mem h value

section Fields

variable {type member : TypeTree} {label : Layout} {labels : List Layout} {start stop : Nat}

/-- Labels with names that are new to a record and differ from the name of a field are new to the
record with that field. -/
theorem not_mem_keys_append {fields : Entries (Extracted α)} {name : String}
    (hname : name ∉ labels.map Layout.name) (value : Option (Extracted α))
    (hnew : ∀ label ∈ labels, label.name ∉ fields.keys) :
    ∀ label ∈ labels, label.name ∉ (fields ++ value.toList.map (name, ·)).keys := by
  intro label hlabel hmem
  rw [Entries.keys_append, List.mem_append] at hmem
  rcases hmem with hmem | hmem
  · exact hnew label hlabel hmem
  · have heq : name = label.name := by
      cases value with
      | none => cases hmem
      | some value => exact (List.mem_singleton.1 hmem).symm
    exact hname (heq ▸ List.mem_map_of_mem hlabel)

/-- Fields that are new to a record are added behind those that it has. -/
theorem readFields_of_new {fields : Entries (Extracted α)}
    (hdistinct : (labels.map Layout.name).Nodup)
    (hnew : ∀ label ∈ labels, label.name ∉ fields.keys) :
    readFields coerce sheet type labels start stop fields =
      (readFields coerce sheet type labels start stop []).map (fields ++ ·) := by
  induction labels generalizing fields with
  | nil => simp [readFields, Except.map]
  | cons label labels ih =>
    rw [List.map_cons, List.nodup_cons] at hdistinct
    obtain ⟨hlabel, hlabels⟩ := List.forall_mem_cons.1 hnew
    cases hmember : type.member? label.name with
    | none =>
      rw [readFields_cons_of_none hmember, readFields_cons_of_none hmember]
      exact ih hdistinct.2 hlabels
    | some member =>
      have hname : member.name = label.name := by simpa using List.find?_some hmember
      rw [readFields_cons hmember, readFields_cons hmember]
      cases readField coerce sheet member label start stop with
      | error e => rfl
      | ok value =>
        simp only [Except.bind]
        rw [elim_addField (hname ▸ hlabel), elim_addField List.not_mem_nil, hname,
          ih hdistinct.2 (not_mem_keys_append hdistinct.1 value hlabels),
          ih hdistinct.2 (not_mem_keys_append hdistinct.1 value fun _ _ => List.not_mem_nil)]
        cases readFields coerce sheet type labels start stop [] with
        | error e => rfl
        | ok rest => simp [Except.map]

/-- **Under labels with different names each field stands for itself.** -/
theorem readFields_cons_of_distinct (hdistinct : ((label :: labels).map Layout.name).Nodup)
    (hmember : type.member? label.name = some member) :
    readFields coerce sheet type (label :: labels) start stop [] = do
      let value ← readField coerce sheet member label start stop
      let rest ← readFields coerce sheet type labels start stop []
      return value.toList.map (label.name, ·) ++ rest := by
  have hname : member.name = label.name := by simpa using List.find?_some hmember
  rw [List.map_cons, List.nodup_cons] at hdistinct
  rw [readFields_cons hmember]
  refine congrArg _ (funext fun value => ?_)
  rw [elim_addField List.not_mem_nil, hname, readFields_of_new hdistinct.2
    (not_mem_keys_append hdistinct.1 value fun _ _ => List.not_mem_nil)]
  cases readFields coerce sheet type labels start stop [] <;> rfl

end Fields

end Extraction

/-- A table is extracted by laying out its sheet, checking the layout and reading the records. -/
theorem extractTable_eq_ok {sheet : Sheet} {type : TypeTree} {layout : Layout}
    {records : List (Extracted Scalar)} (hlayout : Layout.ofSheet sheet type.maxDepth = .ok layout)
    (hcovers : layout.covers "" type = .ok ())
    (hread : Extraction.readTable (coerceIn sheet) sheet type layout type.maxDepth = .ok records) :
    extractTable sheet type = .ok records := by
  rw [extractTable, hlayout]
  simp only [bind, Except.bind, hcovers]
  exact hread

end TableExport
