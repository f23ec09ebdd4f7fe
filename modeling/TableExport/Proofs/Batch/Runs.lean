import TableExport.Proofs.Batch.Preparations

/-!
# Runs

A run takes its steps one after the other, and a step that fails does not end it. So a run is the
list of its outcomes (`Batch.outcomes`), which are then counted (`Batch.run_exportAll`). A step that
is still to come finds what it reads as it was at the start (`Preparation.Ready`), as long as the
files that others write are apart from the files that it reads (`Preparation.Ready.written`).
-/

namespace TableExport

namespace Batch

variable {α : Type} {step : String → Batch (Option WriteStatus)} {state later : BatchState}
  {names : List String}

/-! ## Outcomes -/

/-- Takes a step for each name, with the outcomes. -/
def outcomes (step : String → Batch α) (names : List String) :
    Batch (List (Except BatchError α)) :=
  names.mapM fun name => attempt (step name)

/-- Whether an outcome lets the run go on. -/
def GoesOn (outcome : Except BatchError α) : Prop := ∀ e, outcome = .error e → e.endsRun = false

theorem goesOn_ok (a : α) : GoesOn (.ok a) := by
  intro e he
  cases he

theorem run_attempt {step : Batch α} {outcome : Except BatchError α}
    (hrun : step.run state = (outcome, later)) (hgoes : GoesOn outcome) :
    (attempt step).run state = (.ok outcome, later) := by
  rw [attempt, ExceptT.run_mk]
  simp only [hrun]
  cases outcome with
  | error e => simp only [hgoes e rfl, Bool.false_eq_true, if_false]
  | ok a => rfl

/-- A step that ends the run gives no outcome. -/
theorem goesOn_of_run_attempt {step : Batch α} {outcome found : Except BatchError α}
    {later' : BatchState} (hrun : step.run state = (outcome, later))
    (h : (attempt step).run state = (.ok found, later')) : GoesOn outcome := by
  rintro e rfl
  rw [attempt, ExceptT.run_mk] at h
  simp only [hrun] at h
  cases hends : e.endsRun with
  | false => rfl
  | true =>
    simp only [hends, if_true] at h
    cases h

theorem outcomes_cons (step : String → Batch α) (name : String) (names : List String) :
    outcomes step (name :: names) = do
      let first ← attempt (step name)
      return first :: (← outcomes step names) := by
  rw [outcomes, List.mapM_cons]
  rfl

/-- The outcomes of a run come from its first step and from the rest. -/
theorem run_outcomes_cons {step : String → Batch α} {name : String}
    {results : List (Except BatchError α)} {outcome : Except BatchError α} {mid : BatchState}
    (hrun : (step name).run state = (outcome, mid)) (hgoes : GoesOn outcome)
    (hrest : (outcomes step names).run mid = (.ok results, later)) :
    (outcomes step (name :: names)).run state = (.ok (outcome :: results), later) := by
  rw [outcomes_cons, run_bind_of_ok (run_attempt hrun hgoes), run_bind_of_ok hrest]
  rfl

theorem run_outcomes_cons_inv {step : String → Batch α} {name : String}
    {results : List (Except BatchError α)} {outcome : Except BatchError α} {mid : BatchState}
    (hrun : (step name).run state = (outcome, mid))
    (h : (outcomes step (name :: names)).run state = (.ok results, later)) :
    GoesOn outcome ∧ ∃ rest, results = outcome :: rest ∧
      (outcomes step names).run mid = (.ok rest, later) := by
  have hgoes : GoesOn outcome := by
    rw [outcomes_cons, run_bind] at h
    cases hattempt : (attempt (step name)).run state with
    | mk found after =>
      cases found with
      | error e => rw [hattempt] at h; cases h
      | ok found => exact goesOn_of_run_attempt hrun hattempt
  refine ⟨hgoes, ?_⟩
  rw [outcomes_cons, run_bind_of_ok (run_attempt hrun hgoes), run_bind] at h
  cases hrest : (outcomes step names).run mid with
  | mk found after =>
    rw [hrest] at h
    cases found with
    | error e => cases h
    | ok rest =>
      cases h
      exact ⟨rest, rfl, rfl⟩

/-! ## Counts -/

/-- The counts of some outcomes. -/
def count (results : List (Except BatchError (Option WriteStatus))) : Summary :=
  results.foldl Summary.record {}

theorem tally_eq (step : String → Batch (Option WriteStatus)) (summary : Summary)
    (names : List String) :
    tally step summary names = (fun results => results.foldl Summary.record summary) <$>
      outcomes step names := by
  induction names generalizing summary with
  | nil => rfl
  | cons name rest ih =>
    rw [tally, outcomes_cons, map_bind]
    refine bind_congr fun first => ?_
    rw [ih, map_bind, map_eq_pure_bind]
    rfl

/-- **A run counts its outcomes**, and fails if one of them is a failure. -/
theorem run_exportAll {results : List (Except BatchError (Option WriteStatus))}
    (h : (outcomes step names).run state = (.ok results, later)) :
    (exportAll step names).run state = ((count results).result.mapError .failed, later) := by
  rw [exportAll, tally_eq, bind_map_left, run_bind_of_ok h]
  rfl

theorem foldl_record {results : List (Except BatchError (Option WriteStatus))}
    (h : ∀ result ∈ results, result ≠ .ok none) (summary : Summary) :
    let counted := results.foldl Summary.record summary
    counted.written + counted.skipped + counted.failed =
        summary.written + summary.skipped + summary.failed + results.length ∧
      (counted.failed = summary.failed ↔ ∀ result ∈ results, ∀ e, result ≠ .error e) ∧
      summary.failed ≤ counted.failed := by
  induction results generalizing summary with
  | nil => simp
  | cons result rest ih =>
    obtain ⟨hresult, hrest⟩ := List.forall_mem_cons.1 h
    obtain ⟨hsum, hfailed, hle⟩ := ih hrest (summary.record result)
    simp only [List.foldl_cons, List.length_cons, List.forall_mem_cons] at hsum hfailed hle ⊢
    rw [hsum]
    rcases result with e | _ | status
    · refine ⟨by simp only [Summary.record]; omega, ?_, (Nat.le_succ _).trans hle⟩
      simp only [ne_eq, Except.error.injEq, forall_eq', false_and, iff_false]
      exact (Nat.lt_of_succ_le hle).ne'
    · exact absurd rfl hresult
    · cases status <;>
        exact ⟨by simp only [Summary.record]; omega, by simpa [Summary.record] using hfailed, hle⟩

/-- **Every outcome is counted once**, and some are counted as failed exactly if there are any. -/
theorem count_spec {results : List (Except BatchError (Option WriteStatus))}
    (h : ∀ result ∈ results, result ≠ .ok none) :
    (count results).written + (count results).skipped + (count results).failed =
        results.length ∧
      ((count results).failed = 0 ↔ ∀ result ∈ results, ∀ e, result ≠ .error e) := by
  obtain ⟨hsum, hfailed, -⟩ := foldl_record h {}
  exact ⟨by simpa [count] using hsum, hfailed⟩

/-! ## What a step leaves -/

/-- A draft fails when its update does. -/
theorem written_eq_error {workspace : Workspace} {path text : String} {e : BatchError}
    (h : (written workspace (.ok (some (path, text)))).1 = .error e) :
    ∃ cause, (workspace.update path text).1 = .error cause ∧ e = .output cause := by
  rw [written] at h
  obtain ⟨cause, hcause, he⟩ := mapError_eq_error.1 (map_eq_error.1 h)
  exact ⟨cause, hcause, he.symm⟩

theorem written_of_update {workspace after : Workspace} {path text : String} {status : WriteStatus}
    (h : workspace.update path text = (.ok status, after)) :
    written workspace (.ok (some (path, text))) = (.ok (some status), after) := by
  rw [written, h]
  rfl

/-- A draft that is there is counted. -/
theorem written_ne_none (workspace : Workspace) (path text : String) :
    (written workspace (.ok (some (path, text)))).1 ≠ .ok none := by
  rw [written]
  intro h
  obtain ⟨_, -, hsome⟩ := map_eq_ok.1 h
  cases hsome

theorem grows_written (workspace : Workspace) (draft : Except BatchError Draft) :
    workspace.Grows (written workspace draft).2 := by
  rcases draft with e | _ | ⟨path, text⟩
  · exact .refl workspace
  · exact .refl workspace
  · exact (Workspace.updates_update workspace path text).grows

theorem sound_written {workspace : Workspace} (h : workspace.Sound)
    (draft : Except BatchError Draft) : (written workspace draft).2.Sound := by
  rcases draft with e | _ | ⟨path, text⟩
  · exact h
  · exact h
  · exact (Workspace.updates_update workspace path text).sound h

/-- A step leaves the files that it reads and those apart from what it writes. -/
theorem read?_written {workspace : Workspace} {draft : Except BatchError Draft} {input : String}
    (h : ∀ path text, draft = .ok (some (path, text)) → workspace.Apart path input) :
    (written workspace draft).2.read? input = workspace.read? input := by
  rcases draft with e | _ | ⟨path, text⟩
  · rfl
  · rfl
  · exact (h path text rfl).read?_update text

/-- A step leaves the content of a file that it does not write. -/
theorem contentAt?_written {workspace : Workspace} {draft : Except BatchError Draft}
    {other : String} (h : ∀ path text, draft = .ok (some (path, text)) →
      workspace.targetOf other = workspace.targetOf path → workspace.targetOf other = []) :
    (written workspace draft).2.contentAt? (workspace.targetOf other) =
      workspace.contentAt? (workspace.targetOf other) := by
  rcases draft with e | _ | ⟨path, text⟩
  · rfl
  · rfl
  · exact (Workspace.updates_update workspace path text).contentAt?_targetOf (h path text rfl)

end Batch

namespace Preparation

variable {folder : String} {preparation : Preparation folder} {start state : BatchState}

/-- A step that is to come finds what it reads as it was at the start. -/
structure Ready (start : BatchState) (preparation : Preparation folder) (state : BatchState) :
    Prop where
  grows : start.workspace.Grows state.workspace
  inputs : ∀ input ∈ preparation.inputs start,
    state.workspace.read? input = start.workspace.read? input
  documents : ∀ name ∈ preparation.documents start,
    state.reading folder name = start.reading folder name

theorem Ready.refl (start : BatchState) (preparation : Preparation folder) :
    preparation.Ready start start :=
  ⟨.refl _, fun _ _ => rfl, fun _ _ => rfl⟩

theorem Ready.value_eq (h : preparation.Ready start state) :
    preparation.value state = preparation.value start :=
  preparation.congr start state h.documents fun path hpath =>
    h.inputs path (List.mem_append_left _ hpath)

/-- A document is read the same if its file is. -/
theorem reading_congr {workspace later : Workspace} (known : Documents) {name : String}
    (hname : name ∈ preparation.documents start)
    (hread : ∀ input ∈ preparation.inputs start, later.read? input = workspace.read? input) :
    known.reading (later.schema folder) name = known.reading (workspace.schema folder) name := by
  have hschema : later.schema folder name = workspace.schema folder name := by
    rw [Workspace.schema, Workspace.schema, Workspace.readText?, Workspace.readText?,
      hread _ (List.mem_append_right _ (List.mem_map_of_mem hname))]
  rw [Documents.reading, Documents.reading, hschema]

/-- **A step leaves a later one ready** if it writes apart from what that one reads. -/
theorem Ready.written (h : preparation.Ready start state) {draft : Except BatchError Batch.Draft}
    (hapart : ∀ path text, draft = .ok (some (path, text)) →
      ∀ input ∈ preparation.inputs start, start.workspace.Apart path input)
    {known : Documents}
    (hreading : known.reading (state.workspace.schema folder) = state.reading folder) :
    preparation.Ready start ⟨(Batch.written state.workspace draft).2, known⟩ := by
  have hread : ∀ input ∈ preparation.inputs start,
      (Batch.written state.workspace draft).2.read? input = state.workspace.read? input :=
    fun input hinput => Batch.read?_written fun path text hdraft =>
      (hapart path text hdraft input hinput).mono h.grows
  exact ⟨h.grows.trans (Batch.grows_written _ _),
    fun input hinput => (hread input hinput).trans (h.inputs input hinput), fun name hname =>
      (reading_congr known hname hread).trans
        ((congrFun hreading name).trans (h.documents name hname))⟩

/-- A step stays ready when only the known documents change, and not what is read. -/
theorem Ready.relearn (h : preparation.Ready start state) {known : Documents}
    (hreading : known.reading (state.workspace.schema folder) = state.reading folder) :
    preparation.Ready start ⟨state.workspace, known⟩ :=
  ⟨h.grows, h.inputs, fun name hname => (congrFun hreading name).trans (h.documents name hname)⟩

/-- A step is ready for a session that knows what was known at the start. -/
theorem Ready.renew (h : preparation.Ready start state) :
    preparation.Ready start ⟨state.workspace, start.known⟩ :=
  ⟨h.grows, h.inputs, fun _ hname => reading_congr start.known hname h.inputs⟩

end Preparation

namespace Batch

variable {state : BatchState}

/-- A run of two steps, of which the first leaves what the second reads. -/
theorem run_pair {folder : String} {plan : String → Preparation folder} {first second : String}
    {draft draft' : Except BatchError Draft} (hfirst : (plan first).value state = draft)
    (hsecond : (plan second).value state = draft')
    (hapart : ∀ path text, draft = .ok (some (path, text)) →
      ∀ input ∈ (plan second).inputs state, state.workspace.Apart path input)
    (hgoes : GoesOn (written state.workspace draft).1)
    (hgoes' : GoesOn (written (written state.workspace draft).2 draft').1) :
    ∃ later, (outcomes (fun name => (plan name).step) [first, second]).run state =
        (.ok [(written state.workspace draft).1,
          (written (written state.workspace draft).2 draft').1], later) ∧
      later.workspace = (written (written state.workspace draft).2 draft').2 := by
  obtain ⟨known, hrun, hreading⟩ := (plan first).run_step state
  rw [hfirst] at hrun
  have hready := (Preparation.Ready.refl state (plan second)).written hapart hreading
  obtain ⟨known', hrun', -⟩ := (plan second).run_step ⟨(written state.workspace draft).2, known⟩
  rw [hready.value_eq, hsecond] at hrun'
  exact ⟨_, run_outcomes_cons hrun hgoes (run_outcomes_cons hrun' hgoes' rfl), rfl⟩

end Batch

end TableExport
