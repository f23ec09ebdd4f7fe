import TableExport.Proofs.Table.Columns

/-!
# Boundaries between records

A row in which a single-valued field has a value starts a record, and no record above it reaches
into it. So a range of rows can be cut there: the rows above the boundary and those from it on are
read apart (`readRecords_append`), and what is read of either does not depend on the other.

* `readRecord_of_starts`: a record above a boundary is read as if the rows ended there.
* `collect_append`: cutting the rows of any walk that respects a boundary.
* `readRecords_cut`: an array of records is cut at a boundary, and editing the rows on one side of
  it leaves the records on the other side as they are.
-/

namespace TableExport

namespace Extraction

variable {α ε : Type} {sheet : Sheet} {type : TypeTree} {layout : Layout}
  {start boundary stop : Nat}

/-! ## Records above a boundary -/

/-- A record above a boundary has the same end whether or not the rows go on. -/
theorem recordEnd_of_starts {labels : List Layout} (h : Starts sheet type labels boundary)
    (hstart : start < boundary) (hstop : boundary ≤ stop) :
    recordEnd sheet type labels start stop =
      recordEnd sheet type labels start (boundary - 1) := by
  obtain ⟨hrange, hnone, hnext⟩ :=
    recordEnd_spec sheet type labels (show start ≤ boundary - 1 by omega)
  refine recordEnd_eq ⟨hrange.1, by omega⟩ hnone fun _ => ?_
  rcases hrange.2.lt_or_eq with hlt | heq
  · exact hnext hlt
  · rwa [heq, Nat.sub_add_cancel (by omega)]

variable {coerce : ScalarType → Cell → Except ε α}

/-- A record above a boundary is read as if the rows ended there. -/
theorem readRecord_of_starts (h : Starts sheet type layout.members boundary)
    (hstart : start < boundary) (hstop : boundary ≤ stop) :
    readRecord coerce sheet type layout start stop =
      readRecord coerce sheet type layout start (boundary - 1) := by
  rw [readRecord_eq, readRecord_eq, recordEnd_of_starts h hstart hstop]

/-- The last row of a record lies within the rows that it is read from. -/
theorem last_of_readRecord {fields : Entries (Extracted α)} {last : Nat}
    (hle : start ≤ stop)
    (h : readRecord coerce sheet type layout start stop = .ok (fields, last)) :
    last = recordEnd sheet type layout.members start stop ∧ start ≤ last ∧ last ≤ stop := by
  rw [readRecord_eq] at h
  obtain ⟨read, -, hread⟩ := map_eq_ok.1 h
  cases hread
  exact ⟨rfl, (recordEnd_spec sheet type layout.members hle).1⟩

/-! ## Cutting a walk -/

/-- **A walk that no record crosses a boundary in is cut there**: the rows above it are walked
first, then the others. -/
theorem collect_append {start : Nat} {isBlank : Nat → Bool}
    {read readAbove : Nat → Except ε (Entries (Extracted α) × Nat)}
    (hpos : 0 < start) (hstart : start ≤ boundary) (hstop : boundary ≤ stop)
    (hread : ∀ row, start ≤ row → row < boundary → read row = readAbove row)
    (hlast : ∀ row fields last, start ≤ row → row < boundary →
      readAbove row = .ok (fields, last) → last < boundary) :
    collect isBlank read start stop = (do
      let before ← collect isBlank readAbove start (boundary - 1)
      let after ← collect isBlank read boundary stop
      return before ++ after) := by
  rcases hstart.eq_or_lt with rfl | hlt
  · rw [collect_of_lt (Nat.sub_lt hpos Nat.one_pos)]
    simp only [bind, Except.bind, pure, Except.pure, List.nil_append]
    cases collect isBlank read start stop <;> rfl
  · have hnext : ∀ next, start < next → next ≤ boundary → collect isBlank read next stop = (do
        let before ← collect isBlank readAbove next (boundary - 1)
        let after ← collect isBlank read boundary stop
        return before ++ after) := fun next h₁ h₂ =>
      collect_append (hpos.trans h₁) h₂ hstop (fun row h₃ => hread row (by omega))
        fun row fields last h₃ => hlast row fields last (by omega)
    cases hblank : isBlank start with
    | true =>
      rw [collect_of_isBlank (hstart.trans hstop) hblank, collect_of_isBlank (by omega) hblank]
      exact hnext _ (Nat.lt_succ_self start) hlt
    | false =>
      rw [collect_of_filled (hstart.trans hstop) hblank, collect_of_filled (by omega) hblank,
        hread start (le_refl _) hlt]
      cases hrecord : readAbove start with
      | error e => rfl
      | ok result =>
        obtain ⟨fields, last⟩ := result
        have := hlast start fields last (le_refl _) hlt hrecord
        simp only [bind, Except.bind]
        rw [hnext (max start last + 1) (by omega) (by omega)]
        cases collect isBlank readAbove (max start last + 1) (boundary - 1) with
        | error e => rfl
        | ok before =>
          cases collect isBlank read boundary stop with
          | error e => rfl
          | ok after => simp [bind, Except.bind, pure, Except.pure]
termination_by boundary - start

/-- The records of a range of rows are those above a boundary and those from it on. -/
theorem readRecords_append (hpos : 0 < start) (hstart : start ≤ boundary) (hstop : boundary ≤ stop)
    (h : Starts sheet type layout.members boundary) :
    readRecords coerce sheet type layout start stop = (do
      let before ← readRecords coerce sheet type layout start (boundary - 1)
      let after ← readRecords coerce sheet type layout boundary stop
      return before ++ after) := by
  refine collect_append hpos hstart hstop
    (fun row h₁ h₂ => readRecord_of_starts h h₂ hstop) fun row fields last h₁ h₂ hread => ?_
  have := (last_of_readRecord (by omega) hread).2.2
  omega

theorem readRecords_eq_ok_iff (hpos : 0 < start) (hstart : start ≤ boundary)
    (hstop : boundary ≤ stop) (h : Starts sheet type layout.members boundary)
    {records : List (Extracted α)} :
    readRecords coerce sheet type layout start stop = .ok records ↔ ∃ before after,
      readRecords coerce sheet type layout start (boundary - 1) = .ok before ∧
        readRecords coerce sheet type layout boundary stop = .ok after ∧
        records = before ++ after := by
  rw [readRecords_append hpos hstart hstop h, bind_eq_ok]
  simp only [bind_eq_ok, pure, Except.pure, Except.ok.injEq]
  constructor
  · rintro ⟨before, hbefore, after, hafter, rfl⟩
    exact ⟨before, after, hbefore, hafter, rfl⟩
  · rintro ⟨before, after, hbefore, hafter, rfl⟩
    exact ⟨before, hbefore, after, hafter, rfl⟩

end Extraction

/-- The reading of cells depends on the names of a sheet only. -/
theorem coerceIn_congr {sheet other : Sheet} (hfile : other.fileName = sheet.fileName)
    (hname : other.name = sheet.name) : coerceIn other = coerceIn sheet := by
  funext type cell
  rw [coerceIn, coerceIn, hfile, hname]

namespace Extraction

variable {sheet other : Sheet} {type : TypeTree} {layout : Layout} {start boundary stop : Nat}

/-- What is read from some rows stays the same when the sheet is edited elsewhere. -/
theorem readRecords_of_edit (hfile : other.fileName = sheet.fileName)
    (hname : other.name = sheet.name)
    (h : ∀ row column, start ≤ row → row ≤ stop → other.get? row column = sheet.get? row column) :
    readRecords (coerceIn other) other type layout start stop =
      readRecords (coerceIn sheet) sheet type layout start stop := by
  rw [coerceIn_congr hfile hname]
  exact readRecords_congr (alike_of_rows h)

/-- **An array of records is cut at every row that starts a record.** The rows are read if those
above the boundary and those from it on are, and give the records of both, one after the other. Of
two sheets with a boundary there, the records above it are the same if the rows above it are, and so
are those from it on. -/
theorem readRecords_cut (hpos : 1 ≤ start) (hstart : start ≤ boundary) (hstop : boundary ≤ stop)
    (h : ∃ label member, Matched type layout label member ∧ member.isArray = false ∧
      sheet.isBlank boundary label.first = false) :
    (∀ records, readRecords (coerceIn sheet) sheet type layout start stop = .ok records ↔
      ∃ before after,
        readRecords (coerceIn sheet) sheet type layout start (boundary - 1) = .ok before ∧
          readRecords (coerceIn sheet) sheet type layout boundary stop = .ok after ∧
          records = before ++ after) ∧
    ∀ other : Sheet, other.fileName = sheet.fileName → other.name = sheet.name →
      (∃ label member, Matched type layout label member ∧ member.isArray = false ∧
        other.isBlank boundary label.first = false) →
      ∀ records records', readRecords (coerceIn sheet) sheet type layout start stop = .ok records →
        readRecords (coerceIn other) other type layout start stop = .ok records' →
        ∃ before after before' after', records = before ++ after ∧ records' = before' ++ after' ∧
          readRecords (coerceIn sheet) sheet type layout start (boundary - 1) = .ok before ∧
          readRecords (coerceIn sheet) sheet type layout boundary stop = .ok after ∧
          ((∀ row column, start ≤ row → row < boundary →
            other.get? row column = sheet.get? row column) → before' = before) ∧
          ((∀ row column, boundary ≤ row → row ≤ stop →
            other.get? row column = sheet.get? row column) → after' = after) := by
  refine ⟨fun records => readRecords_eq_ok_iff hpos hstart hstop (starts_iff.2 h), ?_⟩
  intro other hfile hname hother records records' hrecords hrecords'
  obtain ⟨before, after, hbefore, hafter, heq⟩ :=
    (readRecords_eq_ok_iff hpos hstart hstop (starts_iff.2 h)).1 hrecords
  obtain ⟨before', after', hbefore', hafter', heq'⟩ :=
    (readRecords_eq_ok_iff hpos hstart hstop (starts_iff.2 hother)).1 hrecords'
  refine ⟨before, after, before', after', heq, heq', hbefore, hafter, fun hrows => ?_,
    fun hrows => ?_⟩
  · rw [readRecords_of_edit hfile hname fun row column h₁ h₂ =>
      hrows row column h₁ (by omega), hbefore] at hbefore'
    exact (Except.ok.inj hbefore').symm
  · rw [readRecords_of_edit hfile hname hrows, hafter] at hafter'
    exact (Except.ok.inj hafter').symm

end Extraction

namespace Stock

set_option maxRecDepth 10000 in
open Extraction in
/-- The second of the items starts in row 7. -/
theorem readRecords_items :
    readRecords (coerceIn (sheet items)) (sheet items) type layout 4 7 =
      .ok ([firstItem] ++ [secondItem]) := by
  have hstarts : ∃ label member, Matched type layout label member ∧ member.isArray = false ∧
      (sheet items).isBlank 7 label.first = false :=
    ⟨_, _, ⟨List.mem_cons_self, rfl⟩, rfl, by cbv⟩
  exact ((readRecords_cut (by decide) (by decide) (by decide) hstarts).1 _).2
    ⟨[firstItem], [secondItem], by cbv, by cbv, rfl⟩

end Stock

end TableExport
