import TableExport.Proofs.Table.Boundaries

/-!
# The rows that records span

The walk over the rows of an array goes from stop to stop: a blank row is passed over, and at any
other row a record is read, after whose last row the walk goes on (`Visit`, `Walks`). Since a record
ends at the row it starts in or below it (`last_of_readRecord`), the walk comes to an end
(`exists_walks`), and what it reads are blocks of rows, one below the other, which leave out blank
rows only (`Walks.forall_visits`, `Walks.pairwise`, `Walks.exists_spans`).
-/

namespace TableExport

namespace Extraction

variable {α ε : Type}

/-- What the walk over the rows of an array does at a row: it passes over a blank one, or reads the
record that starts there and finds its last row. -/
inductive Visit
  | blank (row : Nat)
  | record (row last : Nat)
  deriving DecidableEq

namespace Visit

/-- The row that is visited. -/
def row : Visit → Nat
  | .blank row | .record row _ => row

/-- The row at which the walk goes on. -/
def next : Visit → Nat
  | .blank row => row + 1
  | .record _ last => last + 1

/-- Whether a row lies in the record that is read. -/
def Spans : Visit → Nat → Prop
  | .blank _, _ => False
  | .record first last, row => first ≤ row ∧ row ≤ last

theorem Spans.bounds {visit : Visit} {row : Nat} (h : visit.Spans row) :
    visit.row ≤ row ∧ row < visit.next := by
  cases visit with
  | blank => exact h.elim
  | record first last => exact ⟨h.1, Nat.lt_succ_of_le h.2⟩

/-- Of two stops one is below all rows of the other. -/
def Apart (visit other : Visit) : Prop := visit.next ≤ other.row ∨ other.next ≤ visit.row

instance : Std.Symm Apart := ⟨fun _ _ h => h.symm⟩

end Visit

/-- The walk from a row through `stop`, with what it does at each row that it comes to and what comes
of it. A record that cannot be read ends it. -/
inductive Walks (isBlank : Nat → Bool) (read : Nat → Except ε (Entries (Extracted α) × Nat))
    (stop : Nat) : Nat → List Visit → Except ε (List (Extracted α)) → Prop
  | done {row : Nat} : stop < row → Walks isBlank read stop row [] (.ok [])
  | failed {row : Nat} {e : ε} : row ≤ stop → isBlank row = false → read row = .error e →
    Walks isBlank read stop row [] (.error e)
  | blank {row : Nat} {visits : List Visit} {result : Except ε (List (Extracted α))} :
    row ≤ stop → isBlank row = true → Walks isBlank read stop (row + 1) visits result →
    Walks isBlank read stop row (.blank row :: visits) result
  | record {row last : Nat} {fields : Entries (Extracted α)} {visits : List Visit}
    {result : Except ε (List (Extracted α))} :
    row ≤ stop → isBlank row = false → read row = .ok (fields, last) →
    Walks isBlank read stop (last + 1) visits result →
    Walks isBlank read stop row (.record row last :: visits)
      (result.map fun rest => (recordOf fields).toList ++ rest)

section Walks

variable {isBlank : Nat → Bool} {read : Nat → Except ε (Entries (Extracted α) × Nat)}
  {row stop : Nat} {visits : List Visit} {result : Except ε (List (Extracted α))}

/-- **The walk comes to an end** with what is collected, if no record ends above its first row. -/
theorem exists_walks {row : Nat}
    (hlast : ∀ r fields last, row ≤ r → r ≤ stop → read r = .ok (fields, last) → r ≤ last) :
    ∃ visits, Walks isBlank read stop row visits (collect isBlank read row stop) := by
  by_cases hlt : stop < row
  · exact ⟨[], by rw [collect_of_lt hlt]; exact .done hlt⟩
  have hrow : row ≤ stop := Nat.le_of_not_lt hlt
  have hnext : ∀ next, row < next →
      ∃ visits, Walks isBlank read stop next visits (collect isBlank read next stop) :=
    fun next hnext => exists_walks fun r fields last h => hlast r fields last (by omega)
  cases hblank : isBlank row with
  | true =>
    obtain ⟨visits, h⟩ := hnext (row + 1) (Nat.lt_succ_self row)
    exact ⟨_, by rw [collect_of_isBlank hrow hblank]; exact .blank hrow hblank h⟩
  | false =>
    rw [collect_of_filled hrow hblank]
    cases hread : read row with
    | error e => exact ⟨[], .failed hrow hblank hread⟩
    | ok found =>
      obtain ⟨fields, last⟩ := found
      have hle := hlast row fields last (le_refl row) hrow hread
      obtain ⟨visits, h⟩ := hnext (last + 1) (Nat.lt_succ_of_le hle)
      refine ⟨.record row last :: visits, ?_⟩
      have hrecord := Walks.record hrow hblank hread h
      simp only [bind, Except.bind, Nat.max_eq_right hle]
      generalize collect isBlank read (last + 1) stop = rest at hrecord
      cases rest <;> exact hrecord
termination_by stop + 1 - row

/-- Each stop lies in the range of rows, and the walk goes on below it. A record is read where the row
is not blank. -/
theorem Walks.forall_visits (h : Walks isBlank read stop row visits result)
    (hlast : ∀ r fields last, r ≤ stop → read r = .ok (fields, last) → r ≤ last ∧ last ≤ stop) :
    ∀ visit ∈ visits, row ≤ visit.row ∧ visit.row < visit.next ∧ visit.next ≤ stop + 1 ∧
      ∀ first last, visit = .record first last → isBlank first = false := by
  induction h with
  | done => exact fun _ hvisit => nomatch hvisit
  | failed => exact fun _ hvisit => nomatch hvisit
  | blank hrow _ _ ih =>
    refine List.forall_mem_cons.2 ⟨⟨le_refl _, Nat.lt_succ_self _, Nat.succ_le_succ hrow, nofun⟩,
      fun visit hvisit => ?_⟩
    obtain ⟨hle, hrest⟩ := ih visit hvisit
    exact ⟨by omega, hrest⟩
  | record hrow hblank hread _ ih =>
    obtain ⟨hfirst, hstop⟩ := hlast _ _ _ hrow hread
    refine List.forall_mem_cons.2 ⟨⟨le_refl _, Nat.lt_succ_of_le hfirst, Nat.succ_le_succ hstop, ?_⟩,
      fun visit hvisit => ?_⟩
    · rintro first last heq
      cases heq
      exact hblank
    · obtain ⟨hle, hrest⟩ := ih visit hvisit
      exact ⟨by omega, hrest⟩

/-- **Each stop is below all rows that were visited or read before.** -/
theorem Walks.pairwise (h : Walks isBlank read stop row visits result)
    (hlast : ∀ r fields last, r ≤ stop → read r = .ok (fields, last) → r ≤ last ∧ last ≤ stop) :
    visits.Pairwise fun visit later => visit.next ≤ later.row := by
  induction h with
  | done => exact .nil
  | failed => exact .nil
  | blank _ _ hrest ih =>
    exact .cons (fun later hlater => (hrest.forall_visits hlast later hlater).1) ih
  | record _ _ _ hrest ih =>
    exact .cons (fun later hlater => (hrest.forall_visits hlast later hlater).1) ih

/-- **A walk that reads all its records leaves out blank rows only.** -/
theorem Walks.exists_spans (h : Walks isBlank read stop row visits result)
    {records : List (Extracted α)} (hresult : result = .ok records) {r : Nat} (hrow : row ≤ r)
    (hstop : r ≤ stop) (hfilled : isBlank r = false) : ∃ visit ∈ visits, visit.Spans r := by
  induction h generalizing records with
  | done hlt => omega
  | failed => cases hresult
  | @blank row _ _ _ hblank _ ih =>
    have hne : row ≠ r := by
      rintro rfl
      rw [hfilled] at hblank
      cases hblank
    obtain ⟨visit, hvisit, hspans⟩ := ih hresult (by omega)
    exact ⟨visit, List.mem_cons_of_mem _ hvisit, hspans⟩
  | @record row last _ _ _ _ _ _ _ ih =>
    obtain ⟨rest, hrest, -⟩ := map_eq_ok.1 hresult
    by_cases hle : r ≤ last
    · exact ⟨.record row last, List.mem_cons_self, hrow, hle⟩
    · obtain ⟨visit, hvisit, hspans⟩ := ih hrest (Nat.lt_of_not_le hle)
      exact ⟨visit, List.mem_cons_of_mem _ hvisit, hspans⟩

/-- No row lies in two records. -/
theorem eq_of_spans (hpairwise : visits.Pairwise fun visit later => visit.next ≤ later.row)
    {visit other : Visit} (hvisit : visit ∈ visits) (hother : other ∈ visits) {r : Nat}
    (hspans : visit.Spans r) (hspans' : other.Spans r) : visit = other := by
  have happart : visits.Pairwise Visit.Apart := hpairwise.imp Or.inl
  by_contra hne
  have horder : visit.next ≤ other.row ∨ other.next ≤ visit.row :=
    happart.forall hvisit hother hne
  have := hspans.bounds
  have := hspans'.bounds
  omega

end Walks

/-- **The records of an array span blocks of rows, one below the other.** A record ends at the row
that it starts in or below it, and within the rows that it is read from. So the walk over the rows
comes to an end and its rows increase, always within 64 bits; the records it reads start at rows that
are not blank, and each lies below the one before. If all can be read, each row that is not blank
lies in exactly one of them. -/
theorem exists_walks_readRecords (coerce : ScalarType → Cell → Except ε α) (sheet : Sheet)
    (type : TypeTree) (layout : Layout) (start : Nat) {stop : Nat} (hstop : stop < Literal.maxCount) :
    let isBlank := fun row => sheet.isBlankRow row layout.first layout.last
    let read := fun row => readRecord coerce sheet type layout row stop
    (∀ row fields last, row ≤ stop → read row = .ok (fields, last) → row ≤ last ∧ last ≤ stop) ∧
    ∃ visits, Walks isBlank read stop start visits
        (readRecords coerce sheet type layout start stop) ∧
      (visits.map Visit.row).Pairwise (· < ·) ∧
      (∀ visit ∈ visits, start ≤ visit.row ∧ visit.row < visit.next ∧
        visit.next ≤ Literal.maxCount) ∧
      (visits.Pairwise fun visit later => visit.next ≤ later.row) ∧
      (∀ row last, .record row last ∈ visits → isBlank row = false) ∧
      ∀ records, readRecords coerce sheet type layout start stop = .ok records →
        ∀ row, start ≤ row → row ≤ stop → isBlank row = false →
          ∃! visit, visit ∈ visits ∧ visit.Spans row := by
  intro isBlank read
  have hlast : ∀ row fields last, row ≤ stop → read row = .ok (fields, last) →
      row ≤ last ∧ last ≤ stop := fun _ _ _ hrow hread => (last_of_readRecord hrow hread).2
  obtain ⟨visits, hwalks⟩ : ∃ visits, Walks isBlank read stop start visits
      (collect isBlank read start stop) :=
    exists_walks fun row fields last _ hrow hread => (hlast row fields last hrow hread).1
  have hvisits := hwalks.forall_visits hlast
  have hpairwise := hwalks.pairwise hlast
  refine ⟨hlast, visits, hwalks, ?_, fun visit hvisit => ?_, hpairwise, fun row last hrecord => ?_,
    fun records hrecords row hrow hle hfilled => ?_⟩
  · rw [List.pairwise_map]
    refine hpairwise.imp_of_mem fun hvisit _ hnext => ?_
    exact (hvisits _ hvisit).2.1.trans_le hnext
  · obtain ⟨hfirst, hnext, hend, -⟩ := hvisits visit hvisit
    exact ⟨hfirst, hnext, hend.trans hstop⟩
  · exact (hvisits _ hrecord).2.2.2 row last rfl
  · obtain ⟨visit, hvisit, hspans⟩ := hwalks.exists_spans hrecords hrow hle hfilled
    exact ⟨visit, ⟨hvisit, hspans⟩, fun other hother =>
      eq_of_spans hpairwise hother.1 hvisit hother.2 hspans⟩

end Extraction

namespace Stock

open Extraction in
/-- The first of the items spans the rows from 4 through 6, the second is in row 7. -/
theorem exists_walks_items :
    7 < Literal.maxCount ∧
    ∃ visits, Walks (fun row => (sheet items).isBlankRow row 1 6)
        (fun row => readRecord (coerceIn (sheet items)) (sheet items) type layout row 7) 7 4 visits
        (readRecords (coerceIn (sheet items)) (sheet items) type layout 4 7) ∧
      ∃! visit, visit ∈ visits ∧ visit.Spans 5 := by
  have hstop : 7 < Literal.maxCount := by decide +kernel
  obtain ⟨-, visits, hwalks, -, -, -, -, hspans⟩ :=
    exists_walks_readRecords (coerceIn (sheet items)) (sheet items) type layout 4 hstop
  exact ⟨hstop, visits, hwalks,
    hspans [firstItem, secondItem] (by cbv) 5 (by decide) (by decide) (by cbv)⟩

end Stock

end TableExport
