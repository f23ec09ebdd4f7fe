import TableExport.Proofs.Batch.Alone
import TableExport.Proofs.Table.Coerced

/-!
# Dates that cannot be shown

A cell can be shown unless it holds a date whose day number is beyond the day arithmetic
(`Cell.BeyondDays`); a serial number without a date is shown as it is stored
(`Cell.exists_display`). On a sheet without such a cell no text, no header and no value fails for a
date (`Sheet.WithinDays.shows`), and a run can only end early at a workbook whose sheet holds one
(`Batch.ends_beyondDays`).
-/

namespace TableExport

/-! ## Serial numbers -/

namespace Serial

variable {value : String} {system : DateSystem}

/-- The day of a serial number in the count of both date systems. -/
def dayOf (number : Binary64) (system : DateSystem) : Int :=
  number.toInt64 + dayOffset number.toInt64 system

/-- The day of a serial number is beyond the day arithmetic. -/
def BeyondDays (value : String) (system : DateSystem) : Prop :=
  ∃ number, Literal.double? value = some number ∧ maxDays < (dayOf number system).natAbs

/-- The calendar has the day of a serial number. -/
def HasDate (value : String) (system : DateSystem) : Prop :=
  ∃ number, Literal.double? value = some number ∧
    (Date.ofDayNumber (epoch + dayOf number system)).InRange

theorem dateText_of_double {number : Binary64} (h : Literal.double? value = some number) :
    dateText value system =
      (date? (dayOf number system)).map fun date => date.map Date.render := by
  rw [dateText, h]
  rfl

theorem dateText_of_beyondDays (h : BeyondDays value system) :
    ∃ cause, dateText value system = .error cause := by
  obtain ⟨number, hnumber, hbeyond⟩ := h
  rw [dateText_of_double hnumber, date?, if_pos hbeyond]
  exact ⟨_, rfl⟩

theorem exists_dateText (h : ¬ BeyondDays value system) :
    ∃ date : Option String, dateText value system = .ok date ∧
      (¬ HasDate value system → date = none) := by
  cases hnumber : Literal.double? value with
  | none => exact ⟨none, by rw [dateText, hnumber], fun _ => rfl⟩
  | some number =>
    rw [dateText_of_double hnumber, date?, if_neg fun hbeyond => h ⟨number, hnumber, hbeyond⟩]
    refine ⟨_, rfl, fun hdate => ?_⟩
    rw [if_neg fun hrange => hdate ⟨number, hnumber, hrange⟩]
    rfl

end Serial

/-! ## Cells -/

namespace Cell

variable {cell : Cell}

/-- A cell holds a date whose day is beyond the day arithmetic. -/
def BeyondDays (cell : Cell) : Prop :=
  ∃ part system, cell.kind = .serial part system ∧ part ≠ .time ∧
    Serial.BeyondDays cell.value system

/-- A cell holds a serial number that has no date, or no time if only that is shown. -/
def Undated (cell : Cell) : Prop :=
  ∃ part system, cell.kind = .serial part system ∧
    if part = .time then Literal.double? cell.value = none
    else ¬ Serial.HasDate cell.value system

theorem display_of_beyondDays (h : cell.BeyondDays) : ∃ cause, cell.display = .error cause := by
  obtain ⟨part, system, hkind, hpart, hbeyond⟩ := h
  obtain ⟨cause, hcause⟩ := Serial.dateText_of_beyondDays hbeyond
  refine ⟨cause, ?_⟩
  rw [display, hkind]
  cases part with
  | time => exact absurd rfl hpart
  | date => simp only [hcause, Except.map]
  | dateTime => simp only [Serial.dateTimeText, hcause, Except.map]

/-- **A cell is shown unless its date is beyond the day arithmetic**, and as it is stored if a
serial number has no date. -/
theorem exists_display (h : ¬ cell.BeyondDays) :
    ∃ text, cell.display = .ok text ∧ (cell.Undated → text = cell.value) := by
  have hother : ∀ {text}, (∀ part system, cell.kind ≠ .serial part system) →
      cell.display = .ok text →
      ∃ text, cell.display = .ok text ∧ (cell.Undated → text = cell.value) := by
    intro text hkind htext
    refine ⟨text, htext, ?_⟩
    rintro ⟨part, system, hserial, -⟩
    exact absurd hserial (hkind part system)
  cases hkind : cell.kind with
  | serial part system =>
    have hundated : cell.Undated → if part = .time then Literal.double? cell.value = none
        else ¬ Serial.HasDate cell.value system := by
      rintro ⟨part', system', hkind', hundated⟩
      cases hkind.symm.trans hkind'
      exact hundated
    cases part with
    | time =>
      refine ⟨_, by rw [display, hkind], fun hcell => ?_⟩
      rw [Serial.timeText, show Literal.double? cell.value = none from hundated hcell]
      rfl
    | date =>
      obtain ⟨date, hdate, hnone⟩ := Serial.exists_dateText fun hbeyond =>
        h ⟨.date, system, hkind, by rintro ⟨⟩, hbeyond⟩
      refine ⟨date.getD cell.value, by simp only [display, hkind, hdate, Except.map],
        fun hcell => ?_⟩
      rw [hnone (hundated hcell)]
      rfl
    | dateTime =>
      obtain ⟨date, hdate, hnone⟩ := Serial.exists_dateText fun hbeyond =>
        h ⟨.dateTime, system, hkind, by rintro ⟨⟩, hbeyond⟩
      refine ⟨_, by simp only [display, hkind, Serial.dateTimeText, hdate, Except.map]; rfl,
        fun hcell => ?_⟩
      rw [hnone (hundated hcell)]
      rfl
  | boolean => exact hother (by simp [hkind]) (by rw [display, hkind])
  | isoDateTime => exact hother (by simp [hkind]) (by rw [display, hkind])
  | _ => exact hother (by simp [hkind]) (by rw [display, hkind])

end Cell

/-! ## Sheets -/

/-- No cell of a sheet holds a date beyond the day arithmetic. -/
def Sheet.WithinDays (sheet : Sheet) : Prop :=
  ∀ row column cell, sheet.get? row column = some cell → ¬ cell.BeyondDays

theorem Sheet.WithinDays.shows {sheet : Sheet} (h : sheet.WithinDays) : sheet.Shows := by
  intro row column cell hcell
  obtain ⟨text, htext, -⟩ := Cell.exists_display (h row column cell hcell)
  exact ⟨text, htext⟩

/-! ## Runs -/

namespace Batch

variable {α : Type} {step : String → Batch α} {state later : BatchState} {names : List String}
  {e : BatchError}

theorem run_attempt_eq_error {step : Batch α} (h : (attempt step).run state = (.error e, later)) :
    step.run state = (.error e, later) ∧ e.endsRun = true := by
  rw [attempt, ExceptT.run_mk] at h
  split at h
  · rename_i error after hrun
    cases hends : error.endsRun with
    | false =>
      rw [hends] at h
      cases h
    | true =>
      rw [hends] at h
      cases h
      exact ⟨hrun, hends⟩
  · cases h

/-- **A run ends early at one of its steps**, after outcomes of all steps before it. -/
theorem run_outcomes_eq_error (h : (outcomes step names).run state = (.error e, later)) :
    e.endsRun = true ∧ ∃ before name after results mid, names = before ++ name :: after ∧
      (outcomes step before).run state = (.ok results, mid) ∧
      (step name).run mid = (.error e, later) := by
  induction names generalizing state with
  | nil => cases h
  | cons name rest ih =>
    rw [outcomes_cons, run_bind] at h
    rcases hattempt : (attempt (step name)).run state with ⟨error | outcome, mid⟩
    · rw [hattempt] at h
      cases h
      obtain ⟨hrun, hends⟩ := run_attempt_eq_error hattempt
      exact ⟨hends, [], name, rest, [], state, rfl, rfl, hrun⟩
    · rw [hattempt] at h
      simp only at h
      rw [run_bind] at h
      rcases hrest : (outcomes step rest).run mid with ⟨error | results, after⟩
      · rw [hrest] at h
        cases h
        obtain ⟨hends, before, found, after, results, reached, rfl, hbefore, hrun⟩ := ih hrest
        refine ⟨hends, name :: before, found, after, outcome :: results, reached, rfl, ?_, hrun⟩
        rw [outcomes_cons, run_bind_of_ok hattempt, run_bind_of_ok hbefore]
        rfl
      · rw [hrest] at h
        cases h

theorem run_exportAll_eq_error {step : String → Batch (Option WriteStatus)}
    (h : (exportAll step names).run state = (.error e, later)) (hends : e.endsRun = true) :
    (outcomes step names).run state = (.error e, later) := by
  rcases hrun : (outcomes step names).run state with ⟨error | results, after⟩
  · rw [exportAll, tally_eq, bind_map_left, run_bind_of_error hrun] at h
    cases h
    rfl
  · rw [run_exportAll hrun, Summary.result] at h
    split_ifs at h <;> cases h
    cases hends

/-- **A run over workbooks ends early only where a sheet holds a date beyond the day arithmetic**,
after outcomes of all workbooks before that one. -/
theorem exists_of_endsRun {config : Config} {start : BatchState}
    (h : (exportData config).run start = (.error e, later)) (hends : e.endsRun = true) :
    ∃ before path after results reached sheet,
      start.workspace.list? config.workbookFolder config.workbookPattern =
        some (before ++ path :: after) ∧
      (outcomes (tableStep config) before).run start = (.ok results, reached) ∧
      sheetOf config reached.workspace path = .ok sheet ∧ ¬ sheet.WithinDays := by
  cases hlist : start.workspace.list? config.workbookFolder config.workbookPattern with
  | none =>
    rw [exportData, run_bind, workbooks, list, ExceptT.run_mk, hlist] at h
    cases h
    cases hends
  | some paths =>
    rw [run_exportData hlist] at h
    obtain ⟨-, before, path, after, results, reached, rfl, hbefore, hstep⟩ :=
      run_outcomes_eq_error (run_exportAll_eq_error h hends)
    by_contra hnone
    -- otherwise the table goes on
    have hgoes : GoesOn (alone (Preparation.table config) reached path).1 :=
      goesOn_table fun sheet hsheet => Sheet.WithinDays.shows <| by
        by_contra hbeyond
        exact hnone ⟨before, path, after, results, reached, sheet, rfl, hbefore, hsheet, hbeyond⟩
    rw [← (run_tableStep config reached path).1, hstep] at hgoes
    rw [hgoes e rfl] at hends
    cases hends

/-- **Only a date beyond the day arithmetic ends a run.** A cell can be shown exactly if it holds no
such date; a serial number without a date is then shown as it is stored. On a sheet without such a
cell every text can be shown, no header fails for a date, and no value does. A run over workbooks
ends early only at a workbook whose sheet holds such a cell. -/
theorem ends_beyondDays (cell : Cell) (sheet : Sheet) (config : Config) (start : BatchState) :
    ((cell.BeyondDays → ∃ cause, cell.display = .error cause) ∧
      (¬ cell.BeyondDays →
        ∃ text, cell.display = .ok text ∧ (cell.Undated → text = cell.value))) ∧
    (sheet.WithinDays →
      (∀ row column, ∃ text, sheet.text row column = .ok text) ∧
      (∀ headerRows cause, Layout.ofSheet sheet headerRows ≠ .error (.overflow cause)) ∧
      ∀ row column cell, sheet.get? row column = some cell →
        ∀ type cause, coerceIn sheet type cell ≠ .error (.overflow cause)) ∧
    ∀ later e, (exportData config).run start = (.error e, later) → e.endsRun = true →
      ∃ before path after results reached sheet,
        start.workspace.list? config.workbookFolder config.workbookPattern =
          some (before ++ path :: after) ∧
        (outcomes (tableStep config) before).run start = (.ok results, reached) ∧
        sheetOf config reached.workspace path = .ok sheet ∧ ¬ sheet.WithinDays := by
  refine ⟨⟨Cell.display_of_beyondDays, Cell.exists_display⟩, fun hwithin =>
    ⟨hwithin.shows.text, Layout.ofSheet_ne_overflow hwithin.shows, ?_⟩,
    fun _ _ => exists_of_endsRun⟩
  intro row column cell hcell type
  obtain ⟨text, htext⟩ := hwithin.shows row column cell hcell
  exact coerceIn_ne_overflow htext type

end Batch

namespace Stock

/-- **The date that a cell stores as `1e15` cannot be shown.** -/
theorem display_farDate : farDate.display = .error ⟨1000000000000000⟩ ∧
    ∀ text, farDate.display ≠ .ok text := by
  have h : farDate.display = .error ⟨1000000000000000⟩ := by decide
  refine ⟨h, fun text => ?_⟩
  rw [h]
  exact nofun

end Stock

end TableExport
