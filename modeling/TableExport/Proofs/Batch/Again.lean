import TableExport.Proofs.Batch.Runs
import TableExport.Proofs.Files.Searches

/-!
# Runs that come again

A run that comes again finds every file as it left it, so it writes nothing, and what failed fails
again (`Batch.Job.run_again`). This takes that the files of a run are apart from all that the run
reads and lists, and that no two of them are the same file (`Batch.Repeatable`).
-/

namespace TableExport

namespace Batch

variable {folder : String} {plan : String → Preparation folder} {start state later : BatchState}
  {name : String} {names pending : List String} {looks : List Workspace.Look}
  {results : List (Except BatchError (Option WriteStatus))}

/-- Two steps do not write the same file. -/
def Distinct (start : BatchState) (first second : Preparation folder) : Prop :=
  ∀ path text path' text', first.value start = .ok (some (path, text)) →
    second.value start = .ok (some (path', text')) →
    start.workspace.targetOf path = start.workspace.targetOf path' →
    start.workspace.targetOf path = []

/-- Steps that leave what they all read, and what is found by some looks, and each the files of the
others. -/
structure Repeatable (plan : String → Preparation folder) (start : BatchState)
    (looks : List Workspace.Look) (names : List String) : Prop where
  apart : ∀ name ∈ names, ∀ path text, (plan name).value start = .ok (some (path, text)) →
    ∀ other ∈ names, ∀ input ∈ (plan other).inputs start, start.workspace.Apart path input
  clear : ∀ name ∈ names, ∀ path text, (plan name).value start = .ok (some (path, text)) →
    ∀ look ∈ looks, look.Clear start.workspace path
  distinct : names.Pairwise fun name other => Distinct start (plan name) (plan other)

/-! ## What a run leaves -/

/-- **A step leaves all steps ready**, and goes on to the rest. -/
theorem Repeatable.step (h : Repeatable plan start looks names) (hname : name ∈ names)
    (hready : ∀ name ∈ names, (plan name).Ready start state)
    (hrun : (outcomes (fun name => (plan name).step) (name :: pending)).run state =
      (.ok results, later)) :
    let step := written state.workspace ((plan name).value start)
    GoesOn step.1 ∧ ∃ known rest, results = step.1 :: rest ∧
      (∀ other ∈ names, (plan other).Ready start ⟨step.2, known⟩) ∧
      (outcomes (fun name => (plan name).step) pending).run ⟨step.2, known⟩ =
        (.ok rest, later) := by
  obtain ⟨known, hstep, hreading⟩ := (plan name).run_step state
  rw [(hready name hname).value_eq] at hstep
  obtain ⟨hgoes, rest, hresults, hrest⟩ := run_outcomes_cons_inv hstep hrun
  exact ⟨hgoes, known, rest, hresults, fun other hother => (hready other hother).written
    (fun path text hdraft => h.apart name hname path text hdraft other hother) hreading, hrest⟩

/-- What every step keeps, a run keeps. -/
theorem Repeatable.keeps (h : Repeatable plan start looks names) (Kept : Workspace → Prop)
    (hsub : pending ⊆ names) (hready : ∀ name ∈ names, (plan name).Ready start state)
    (hrun : (outcomes (fun name => (plan name).step) pending).run state = (.ok results, later))
    (hstep : ∀ name ∈ pending, ∀ workspace, start.workspace.Grows workspace → Kept workspace →
      Kept (written workspace ((plan name).value start)).2)
    (hstate : Kept state.workspace) : Kept later.workspace := by
  induction pending generalizing state results with
  | nil =>
    cases hrun
    exact hstate
  | cons name rest ih =>
    obtain ⟨hname, hrest⟩ := List.cons_subset.1 hsub
    obtain ⟨-, known, others, -, hready', hothers⟩ := h.step hname hready hrun
    refine ih hrest hready' hothers (fun other hother => hstep other (List.mem_cons_of_mem _ hother))
      ?_
    exact hstep name List.mem_cons_self _ (hready name hname).grows hstate

theorem Repeatable.ready (h : Repeatable plan start looks names) (hsub : pending ⊆ names)
    (hready : ∀ name ∈ names, (plan name).Ready start state)
    (hrun : (outcomes (fun name => (plan name).step) pending).run state = (.ok results, later)) :
    ∀ name ∈ names, (plan name).Ready start later := by
  induction pending generalizing state results with
  | nil =>
    cases hrun
    exact hready
  | cons name rest ih =>
    obtain ⟨hname, hrest⟩ := List.cons_subset.1 hsub
    obtain ⟨-, known, others, -, hready', hothers⟩ := h.step hname hready hrun
    exact ih hrest hready' hothers

/-- A run leaves what the looks find. -/
theorem Repeatable.same (h : Repeatable plan start looks names)
    (hrun : (outcomes (fun name => (plan name).step) names).run start = (.ok results, later)) :
    ∀ look ∈ looks, look.Same start.workspace later.workspace := by
  intro look hlook
  refine h.keeps (look.Same start.workspace) (List.Subset.refl _) (fun name _ => .refl start _) hrun
    (fun name hname workspace hgrows hsame => ?_) (.refl _ _)
  rcases hdraft : (plan name).value start with e | _ | ⟨path, text⟩
  · exact hsame
  · exact hsame
  · exact hsame.trans (((h.clear name hname path text hdraft look hlook).mono hgrows).same text)

/-! ## Drafts that come again -/

/-- The outcome of a step that comes again. -/
def settled (result : Except BatchError (Option WriteStatus)) :
    Except BatchError (Option WriteStatus) :=
  result.map (Option.map fun _ => .skipped)

/-- **A draft is written once.** -/
theorem written_again {workspace later : Workspace} (draft : Except BatchError Draft)
    (hgrows : (written workspace draft).2.Grows later)
    (hcontent : ∀ path text, draft = .ok (some (path, text)) →
      later.contentAt? (workspace.targetOf path) =
        (written workspace draft).2.contentAt? (workspace.targetOf path))
    (hsound : later.Sound) :
    written later draft = (settled (written workspace draft).1, later) := by
  rcases draft with e | _ | ⟨path, text⟩
  · rfl
  · rfl
  · have hagain := Workspace.update_again text hgrows (hcontent path text rfl) hsound
    rw [written, written, hagain]
    cases (workspace.update path text).1 <;> rfl

/-- **After a run all its drafts have been written.** -/
theorem Repeatable.written_again (h : Repeatable plan start looks names) (hsub : pending ⊆ names)
    (hdistinct : pending.Pairwise fun name other => Distinct start (plan name) (plan other))
    (hready : ∀ name ∈ names, (plan name).Ready start state) (hsound : state.workspace.Sound)
    (hrun : (outcomes (fun name => (plan name).step) pending).run state = (.ok results, later)) :
    (∀ result ∈ results, GoesOn result) ∧
      pending.map (fun name => written later.workspace ((plan name).value start)) =
        results.map fun result => (settled result, later.workspace) := by
  induction pending generalizing state results with
  | nil =>
    cases hrun
    exact ⟨nofun, rfl⟩
  | cons name rest ih =>
    obtain ⟨hname, hrest⟩ := List.cons_subset.1 hsub
    obtain ⟨hfirst, hdistinct⟩ := List.pairwise_cons.1 hdistinct
    obtain ⟨hgoes, known, others, rfl, hready', hothers⟩ := h.step hname hready hrun
    have hsound' := sound_written hsound ((plan name).value start)
    obtain ⟨hgoesOn, hwritten⟩ := ih hrest hdistinct hready' hsound' hothers
    have hgrows : (written state.workspace ((plan name).value start)).2.Grows later.workspace :=
      h.keeps (Workspace.Grows _) hrest hready' hothers
        (fun _ _ _ _ hkept => hkept.trans (grows_written _ _)) (.refl _)
    have hlater : later.workspace.Sound :=
      h.keeps Workspace.Sound hrest hready' hothers
        (fun _ _ _ _ hkept => sound_written hkept _) hsound'
    -- no later step writes the file of this one
    have hcontent : ∀ path text, (plan name).value start = .ok (some (path, text)) →
        later.workspace.contentAt? (state.workspace.targetOf path) =
          (written state.workspace ((plan name).value start)).2.contentAt?
            (state.workspace.targetOf path) := by
      intro path text hdraft
      refine h.keeps (fun workspace => workspace.contentAt? (state.workspace.targetOf path) =
        (written state.workspace ((plan name).value start)).2.contentAt?
          (state.workspace.targetOf path)) hrest hready' hothers
        (fun other hother workspace hworkspace hkept => ?_) rfl
      have hroot : ∀ path, workspace.targetOf path = start.workspace.targetOf path :=
        fun path => Workspace.targetOf_congr hworkspace.root
      rw [← hkept, Workspace.targetOf_congr (hready name hname).grows.root, ← hroot path]
      refine contentAt?_written fun path' text' hdraft' => ?_
      rw [hroot, hroot]
      exact hfirst other hother path text path' text' hdraft hdraft'
    exact ⟨List.forall_mem_cons.2 ⟨hgoes, hgoesOn⟩, by
      rw [List.map_cons, List.map_cons, hwritten,
        Batch.written_again _ hgrows hcontent hlater]⟩

/-- **Steps whose drafts have been written change nothing.** -/
theorem outcomes_again (hready : ∀ name ∈ names, (plan name).Ready start state)
    (hgoes : ∀ result ∈ results, GoesOn result)
    (hwritten : names.map (fun name => written state.workspace ((plan name).value start)) =
      results.map fun result => (settled result, state.workspace)) :
    ∃ known, (outcomes (fun name => (plan name).step) names).run state =
      (.ok (results.map settled), ⟨state.workspace, known⟩) := by
  induction names generalizing state results with
  | nil =>
    obtain rfl := List.map_eq_nil_iff.1 hwritten.symm
    exact ⟨state.known, rfl⟩
  | cons name rest ih =>
    obtain ⟨result, others, rfl⟩ : ∃ result others, results = result :: others :=
      List.exists_cons_of_ne_nil (by rintro rfl; cases hwritten)
    obtain ⟨hfirst, hrest⟩ := List.cons.inj hwritten
    beta_reduce at hfirst
    obtain ⟨hname, hothers⟩ := List.forall_mem_cons.1 hready
    obtain ⟨hgoesFirst, hgoesRest⟩ := List.forall_mem_cons.1 hgoes
    obtain ⟨known, hrun, hreading⟩ := (plan name).run_step state
    rw [hname.value_eq, hfirst] at hrun
    have hgoesAgain : GoesOn (settled result) :=
      fun e he => hgoesFirst e (map_eq_error.1 he)
    have hready' : ∀ other ∈ rest, (plan other).Ready start ⟨state.workspace, known⟩ :=
      fun other hother => (hothers other hother).relearn hreading
    obtain ⟨known', hagain⟩ := ih hready' hgoesRest hrest
    exact ⟨known', run_outcomes_cons hrun hgoesAgain hagain⟩

/-- **A run that comes again has the same failures and writes nothing**, in the same session or in
one that knows what was known at first. -/
theorem Repeatable.again (h : Repeatable plan start looks names) (hsound : start.workspace.Sound)
    (hrun : (outcomes (fun name => (plan name).step) names).run start = (.ok results, later))
    {known : Documents} (hknown : known = later.known ∨ known = start.known) :
    ∃ known', (outcomes (fun name => (plan name).step) names).run ⟨later.workspace, known⟩ =
      (.ok (results.map settled), ⟨later.workspace, known'⟩) := by
  have hall : ∀ name ∈ names, (plan name).Ready start start := fun name _ => .refl start _
  have hready := h.ready (List.Subset.refl _) hall hrun
  obtain ⟨hgoes, hwritten⟩ :=
    h.written_again (List.Subset.refl _) h.distinct hall hsound hrun
  have hreadyAgain : ∀ name ∈ names, (plan name).Ready start ⟨later.workspace, known⟩ := by
    intro name hname
    rcases hknown with rfl | rfl
    · exact hready name hname
    · exact (hready name hname).renew
  exact outcomes_again hreadyAgain hgoes hwritten

end Batch

/-! ## Counts of a run that comes again -/

namespace Summary

/-- The counts when every file has been written. -/
def settled (summary : Summary) : Summary where
  written := 0
  skipped := summary.written + summary.skipped
  failed := summary.failed

theorem settled_record (summary : Summary) (result : Except BatchError (Option WriteStatus)) :
    (summary.record result).settled = summary.settled.record (Batch.settled result) := by
  rcases result with e | _ | status
  · rfl
  · rfl
  · cases status with
    | written =>
      simp only [record, settled, Batch.settled, Except.map, Option.map_some, Nat.add_right_comm]
    | skipped => rfl

end Summary

namespace Batch

theorem count_settled (results : List (Except BatchError (Option WriteStatus))) :
    count (results.map settled) = (count results).settled := by
  have hfold : ∀ summary : Summary, (results.map settled).foldl Summary.record summary.settled =
      (results.foldl Summary.record summary).settled := by
    induction results with
    | nil => exact fun _ => rfl
    | cons result rest ih =>
      intro summary
      rw [List.map_cons, List.foldl_cons, ← Summary.settled_record, ih, List.foldl_cons]
  exact hfold {}

/-! ## Whole runs -/

/-- What a run is for: the tables of all workbooks, or the code of all schema documents. -/
inductive Job
  | tables
  | code

namespace Job

variable {config : Config} {job : Job} {summary : Summary}

/-- A whole run. -/
def run (config : Config) : Job → Batch Summary
  | .tables => exportData config
  | .code => exportCode config

/-- The counts of a run, also of one with failures. -/
def counts (config : Config) : Job → Batch Summary
  | .tables => do tally (fun path => some <$> exportTable config path) {} (← workbooks config)
  | .code => do
    let folder ← ofExcept .config config.requireCodeFolder
    tally (exportDocument config folder) {} (← schemaDocuments config)

/-- A run fails if its counts have failures. -/
theorem run_eq (config : Config) (job : Job) :
    job.run config = (do ofExcept .failed (← job.counts config).result) := by
  cases job <;> simp only [run, counts, exportData, exportCode, exportAll, bind_assoc]

/-- The steps of a run. -/
def plan (config : Config) : Job → String → Preparation config.schemaFolder
  | .tables => Preparation.table config
  | .code => Preparation.code config (config.codeFolder.getD "")

/-- The names for which a run takes a step. -/
def names? (config : Config) (workspace : Workspace) : Job → Option (List String)
  | .tables => workspace.list? config.workbookFolder config.workbookPattern
  | .code => (workspace.list? config.schemaFolder ("*" ++ schemaSuffix)).map
      (·.filterMap Path.fileName?)

/-- What a run looks at to find these names. -/
def looks (config : Config) (workspace : Workspace) : Job → List Workspace.Look
  | .tables => workspace.listLooks config.workbookFolder config.workbookPattern
  | .code => workspace.listLooks config.schemaFolder ("*" ++ schemaSuffix)

/-- A run for code has a folder. -/
def HasFolder (config : Config) : Job → Prop
  | .tables => True
  | .code => config.codeFolder ≠ none

theorem names?_congr {workspace later : Workspace} (hroot : later.root = workspace.root)
    (h : ∀ look ∈ job.looks config workspace, look.Same workspace later) :
    job.names? config later = job.names? config workspace := by
  cases job with
  | tables => exact Workspace.list?_congr hroot h
  | code => rw [names?, names?, Workspace.list?_congr hroot h]

/-- **A run takes its steps** for the names that it finds. -/
theorem run_counts (hfolder : job.HasFolder config)
    (hnames : job.names? config state.workspace = some names) :
    (job.counts config).run state =
      (count <$> outcomes (fun name => (job.plan config name).step) names).run state := by
  have htally : ∀ step : String → Batch (Option WriteStatus),
      tally step {} names = count <$> outcomes step names := fun step => tally_eq step {} names
  cases job with
  | tables =>
    have hlist : (workbooks config).run state = (.ok names, state) := by
      rw [workbooks, list, ExceptT.run_mk]
      rw [names?] at hnames
      rw [hnames]
    rw [counts, run_bind_of_ok hlist, htally]
    simp only [plan, Preparation.step_table]
  | code =>
    obtain ⟨folder, hsome⟩ := Option.ne_none_iff_exists'.1 hfolder
    have hcode : (ofExcept BatchError.config config.requireCodeFolder).run state =
        (.ok folder, state) := by
      rw [ofExcept, Config.requireCodeFolder, hsome]
      rfl
    have hlist : (schemaDocuments config).run state = (.ok names, state) := by
      rw [names?] at hnames
      obtain ⟨paths, hpaths, rfl⟩ := Option.map_eq_some_iff.1 hnames
      rw [schemaDocuments, run_bind, list, ExceptT.run_mk, hpaths]
      rfl
    rw [counts, run_bind_of_ok hcode, run_bind_of_ok hlist, htally]
    simp only [plan, Preparation.step_code, hsome, Option.getD_some]

theorem run_counts_of_outcomes (hfolder : job.HasFolder config)
    (hnames : job.names? config state.workspace = some names)
    (h : (outcomes (fun name => (job.plan config name).step) names).run state =
      (.ok results, later)) :
    (job.counts config).run state = (.ok (count results), later) := by
  rw [run_counts hfolder hnames, map_eq_pure_bind, run_bind_of_ok h]
  rfl

/-- A run with counts has found its names. -/
theorem exists_names (h : (job.counts config).run state = (.ok summary, later)) :
    job.HasFolder config ∧ ∃ names, job.names? config state.workspace = some names := by
  cases job with
  | tables =>
    refine ⟨trivial, ?_⟩
    rw [counts, run_bind, workbooks, list, ExceptT.run_mk] at h
    cases hlist : state.workspace.list? config.workbookFolder config.workbookPattern with
    | none =>
      rw [hlist] at h
      cases h
    | some names => exact ⟨names, hlist⟩
  | code =>
    cases hfolder : config.codeFolder with
    | none =>
      rw [counts, run_bind, ofExcept, Config.requireCodeFolder, hfolder] at h
      cases h
    | some folder =>
      refine ⟨by rw [HasFolder, hfolder]; exact Option.some_ne_none _, ?_⟩
      rw [names?]
      cases hlist : state.workspace.list? config.schemaFolder ("*" ++ schemaSuffix) with
      | none =>
        rw [counts, run_bind, ofExcept, Config.requireCodeFolder, hfolder] at h
        simp only [ExceptT.run_mk, Except.mapError, schemaDocuments, list, run_bind, hlist] at h
        cases h
      | some paths => exact ⟨_, rfl⟩

/-- The counts of a run are those of its outcomes. -/
theorem exists_outcomes (h : (job.counts config).run state = (.ok summary, later)) :
    job.HasFolder config ∧ ∃ names results, job.names? config state.workspace = some names ∧
      (outcomes (fun name => (job.plan config name).step) names).run state = (.ok results, later) ∧
      summary = count results := by
  obtain ⟨hfolder, names, hnames⟩ := exists_names h
  rw [run_counts hfolder hnames, map_eq_pure_bind, run_bind] at h
  cases houtcomes : (outcomes (fun name => (job.plan config name).step) names).run state with
  | mk found after =>
    rw [houtcomes] at h
    cases found with
    | error e => cases h
    | ok results =>
      cases h
      exact ⟨hfolder, names, results, hnames, houtcomes, rfl⟩

theorem run_of_counts (h : (job.counts config).run state = (.ok summary, later)) :
    (job.run config).run state = (summary.result.mapError .failed, later) := by
  rw [run_eq, run_bind_of_ok h]
  rfl

/-- **A run that comes again writes nothing.** Let the workspace be one of a file system, and let the
files that a run writes be different, and apart from all that it reads and lists. When it has
completed and comes again, in the same session or in one that knows what was known at first, it
changes no file, what was written or skipped is skipped, and what failed fails again. -/
theorem run_again (config : Config) (job : Job) (start : BatchState)
    (hsound : start.workspace.Sound)
    (hrepeatable : Repeatable (job.plan config) start (job.looks config start.workspace)
      ((job.names? config start.workspace).getD []))
    {summary : Summary} {later : BatchState}
    (hrun : (job.counts config).run start = (.ok summary, later)) :
    (job.run config).run start = (summary.result.mapError .failed, later) ∧
      ∀ known, known = later.known ∨ known = start.known →
        let again : Summary := ⟨0, summary.written + summary.skipped, summary.failed⟩
        ∃ known', (job.counts config).run ⟨later.workspace, known⟩ =
            (.ok again, ⟨later.workspace, known'⟩) ∧
          (job.run config).run ⟨later.workspace, known⟩ =
            (again.result.mapError .failed, ⟨later.workspace, known'⟩) := by
  refine ⟨run_of_counts hrun, fun known hknown => ?_⟩
  obtain ⟨hfolder, names, results, hnames, houtcomes, rfl⟩ := exists_outcomes hrun
  rw [hnames, Option.getD_some] at hrepeatable
  have hroot : later.workspace.root = start.workspace.root :=
    hrepeatable.keeps (fun workspace => workspace.root = start.workspace.root)
      (List.Subset.refl _) (fun name _ => .refl start _) houtcomes
      (fun _ _ _ _ hkept => (grows_written _ _).root.trans hkept) rfl
  have hnames' : job.names? config later.workspace = some names :=
    (names?_congr hroot (hrepeatable.same houtcomes)).trans hnames
  obtain ⟨known', hagain⟩ := hrepeatable.again hsound houtcomes hknown
  have hcounts : (job.counts config).run ⟨later.workspace, known⟩ =
      (.ok (count results).settled, ⟨later.workspace, known'⟩) := by
    rw [← count_settled]
    exact run_counts_of_outcomes hfolder hnames' hagain
  exact ⟨known', hcounts, run_of_counts hcounts⟩

end Job

end Batch

/-! ## A depot -/

namespace Depot

open Workspace Batch

/-- The configuration of a depot. -/
def config : Config :=
  ⟨"/depot/schemas", "/depot/books", "/depot/tables", some "/depot/code", "", "Data", "*"⟩

/-- The folders of a depot, without its files. -/
def folders : Workspace where
  root := "/depot"
  folders := [["schemas"], ["books"], ["tables"], ["code"]]

/-- The files of a depot: the schemas of bins and items, and more. -/
def workspace (bin item : String) (more : List (Location × ByteArray)) : Workspace where
  root := "/depot"
  files := (["schemas", "Bin.schema.json"], bin.toUTF8) ::
    (["schemas", "Item.schema.json"], item.toUTF8) :: more
  folders := [["schemas"], ["books"], ["tables"], ["code"]]

variable {bin item text : String} {more : List (Location × ByteArray)}

/-- Paths in a depot and their parts. -/
def places : List (String × List String) :=
  [("/depot/schemas", ["schemas"]),
    ("/depot/schemas/Bin.schema.json", ["schemas", "Bin.schema.json"]),
    ("/depot/schemas/Item.schema.json", ["schemas", "Item.schema.json"]),
    ("/depot/code", ["code"]),
    ("/depot/code/Bin.generated.cs", ["code", "Bin.generated.cs"]),
    ("/depot/code/Item.generated.cs", ["code", "Item.generated.cs"]),
    ("/depot/schemas/../code/Item.generated.cs", ["schemas", "..", "code", "Item.generated.cs"])]

theorem partsOf?_eq {path : String} (parts : List String) (h : (path, parts) ∈ places) :
    (workspace bin item more).partsOf? path = some parts := by
  have hall : ∀ place ∈ places, Workspace.partsOf? { root := "/depot" } place.1 = some place.2 := by
    decide_cbv
  exact hall _ h

theorem locate?_schemas :
    (workspace bin item more).locate? "/depot/schemas" = some ["schemas"] := by
  rw [locate?, partsOf?_eq ["schemas"] (by simp [places])]
  simp [walk, workspace, isFolderAt, existsAt]

theorem read?_bin :
    (workspace bin item more).read? "/depot/schemas/Bin.schema.json" = some bin.toUTF8 := by
  rw [read?, locate?, partsOf?_eq ["schemas", "Bin.schema.json"] (by simp [places])]
  simp [walk, workspace, isFolderAt, existsAt, contentAt?]

theorem read?_item :
    (workspace bin item more).read? "/depot/schemas/Item.schema.json" = some item.toUTF8 := by
  rw [read?, locate?, partsOf?_eq ["schemas", "Item.schema.json"] (by simp [places])]
  simp [walk, workspace, isFolderAt, existsAt, contentAt?]

/-! ### Schemas -/

/-- The tables of a depot. -/
def tables : List String := ["Bin", "Item"]

theorem names_code (hmore : ∀ file ∈ more, file.1.head? ≠ some "schemas") :
    Job.code.names? config (workspace bin item more) = some (tables.map (· ++ schemaSuffix)) ∧
      Job.code.looks config (workspace bin item more) =
        [⟨"/depot", false⟩, ⟨"/depot/schemas", false⟩, ⟨"/depot/schemas", true⟩,
          ⟨"/depot/schemas/Bin.schema.json", false⟩,
          ⟨"/depot/schemas/Item.schema.json", false⟩] := by
  let pattern : Wildcard := .anyText :: schemaSuffix.toList.map .char
  let found := ["/depot/schemas/Bin.schema.json", "/depot/schemas/Item.schema.json"]
  have hnames : (workspace bin item more).namesIn ["schemas"] =
      tables.map (· ++ schemaSuffix) := by
    have hnone : ∀ location content, (location, content) ∈ more → location.length = 2 →
        ["schemas"] <+: location → location = [] := by
      rintro location content hfile - ⟨rest, rfl⟩
      exact absurd rfl (hmore _ hfile)
    simpa [namesIn, workspace, tables, schemaSuffix] using hnone
  have hfiles : ∀ path ∈ found, ∃ content, (workspace bin item more).read? path = some content := by
    intro path hpath
    rcases List.mem_pair.1 hpath with rfl | rfl
    · exact ⟨_, read?_bin⟩
    · exact ⟨_, read?_item⟩
  have hstart : (workspace bin item more).searchStart? config.schemaFolder =
      some ("/depot", [.name "schemas"]) := by
    simp [workspace, config, searchStart?]
    rfl
  have hparts : SearchPart.ofPattern? ("*" ++ schemaSuffix) = some [.wildcard pattern] := by rfl
  have hlist := list?_in_folder hparts hstart (by rfl) (by decide) (by rfl) locate?_schemas rfl
    hnames (show _ = found by decide) hfiles (by decide) (by decide_cbv)
  rw [Job.names?, hlist.1, Job.looks, hlist.2]
  exact ⟨by decide_cbv, rfl⟩

/-- The schema of a table with a field. -/
def idSchema : Json :=
  .obj [("type", .str "object"),
    ("properties", .obj [("id", .obj [("type", .str "string")])])]

/-- Its text. -/
def idText : String :=
  "\x7b\"type\":\"object\",\"properties\":\x7b\"id\":\x7b\"type\":\"string\"\x7d\x7d\x7d"

theorem read?_idText : Json.read? idText = some idSchema := by cbv

theorem reading_bin {schema : Json} (hschema : Json.read? text = some schema)
    (hshape : Shape.check ("Bin" ++ schemaSuffix) schema = .ok ()) :
    BatchState.reading ⟨workspace text item more, .empty⟩ config.schemaFolder
      ("Bin" ++ schemaSuffix) = .ok schema :=
  BatchState.reading_of_text rfl read?_bin hschema hshape

theorem reading_item {schema : Json} (hschema : Json.read? text = some schema)
    (hshape : Shape.check ("Item" ++ schemaSuffix) schema = .ok ()) :
    BatchState.reading ⟨workspace bin text more, .empty⟩ config.schemaFolder
      ("Item" ++ schemaSuffix) = .ok schema :=
  BatchState.reading_of_text rfl read?_item hschema hshape

/-! ### Code -/

/-- The code for a table with a field. -/
def codeOf (name : String) : CodeFile :=
  ⟨name ++ ".generated.cs", [.object name none false [⟨"id", "string", false, none⟩]]⟩

/-- The path of the file for the code. -/
def codePath (name : String) : String := Path.join "/depot/code" (codeOf name).name

/-- A file for code with a text in it. -/
def code (name text : String) : Location × ByteArray :=
  (["code", (codeOf name).name], text.toUTF8)

/-- The code for a table whose schema has a field. -/
theorem codeFile_eq {name : String} {state : BatchState} (hname : name ∈ tables)
    (hread : state.reading config.schemaFolder (name ++ schemaSuffix) = .ok idSchema) :
    codeFile config (name ++ schemaSuffix) state = .ok (some (codeOf name)) ∧
      codeDocuments config (name ++ schemaSuffix) state ⊆ [name ++ schemaSuffix] := by
  have hall : ∀ name ∈ tables,
      codeFile config (name ++ schemaSuffix) (.ofDocuments [(name ++ schemaSuffix, idSchema)]) =
          .ok (some (codeOf name)) ∧
        codeDocuments config (name ++ schemaSuffix)
          (.ofDocuments [(name ++ schemaSuffix, idSchema)]) ⊆ [name ++ schemaSuffix] := by
    decide
  obtain ⟨hfile, hasked⟩ := hall name hname
  refine codeFile_of_documents [(name ++ schemaSuffix, idSchema)] hfile hasked fun entry hentry => ?_
  rw [List.mem_singleton.1 hentry]
  exact hread

theorem value_code {name : String} {state : BatchState}
    (h : codeFile config (name ++ schemaSuffix) state = .ok (some (codeOf name))) :
    (Job.code.plan config (name ++ schemaSuffix)).value state =
      .ok (some (codePath name, (codeOf name).render)) := by
  rw [Job.plan, Preparation.value_code, h]
  rfl

/-- A step that asks for one document reads one file. -/
theorem inputs_code {name : String} {state : BatchState}
    (h : codeDocuments config (name ++ schemaSuffix) state ⊆ [name ++ schemaSuffix]) :
    ∀ input ∈ (Job.code.plan config (name ++ schemaSuffix)).inputs state,
      input = Path.join config.schemaFolder (name ++ schemaSuffix) := by
  intro input hinput
  obtain ⟨document, hdocument, rfl⟩ := List.mem_map.1 hinput
  rw [List.mem_singleton.1 (h hdocument)]

/-- The files for code are apart from the schemas and from what is looked at to find them. -/
theorem apart_code {name other : String} (hname : name ∈ tables) (hother : other ∈ tables) :
    (workspace bin item more).Apart (codePath name)
      (Path.join config.schemaFolder (other ++ schemaSuffix)) := by
  have hall : ∀ name ∈ tables, ∀ other ∈ tables, folders.Apart (codePath name)
      (Path.join config.schemaFolder (other ++ schemaSuffix)) := by decide
  exact hall name hname other hother

/-- A file for code is written into its folder. -/
theorem update_code {name : String} (hname : name ∈ tables)
    (hcontent : (workspace bin item more).contentAt? (code name text).1 ≠ some text.toUTF8) :
    (workspace bin item more).update (codePath name) text =
      (.ok .written, (workspace bin item more).putAt (code name text).1 text.toUTF8) := by
  have hall : ∀ name ∈ tables,
      Workspace.partsOf? { root := "/depot" } (codePath name) =
          some (["code"] ++ [(codeOf name).name]) ∧
        Path.parent? (codePath name) = some "/depot/code" ∧
        Path.IsName (codeOf name).name ∧ isValidName (codeOf name).name = true := by
    decide
  obtain ⟨hparts, hparent, hfile, hvalid⟩ := hall name hname
  have hfolder : (workspace bin item more).partsOf? "/depot/code" = some ["code"] :=
    partsOf?_eq _ (by simp [places])
  have hparts' : (workspace bin item more).partsOf? (codePath name) =
      some (["code"] ++ [(codeOf name).name]) := hparts
  have hmade : (workspace bin item more).makeParent (codePath name) =
      (workspace bin item more, true) := by
    rw [makeParent, hparent]
    simp only [makeFolders, hfolder]
    simp [makeAlong, isFolderAt, workspace]
  refine update_eq_written (fun hread => hcontent ?_) hmade ?_
  · have hfound := (read?_eq_some.1 hread).2
    rwa [targetOf_of_parts hparts' hfile] at hfound
  · rw [write?_of_parts hparts', if_pos]
    · rfl
    · refine ⟨hfile, hvalid, ?_, rfl, ?_⟩
      · simp [Leads, Passes, workspace, existsAt, isFolderAt, Path.descend]
      · simp [isFolderAt, workspace, Path.target, Path.descend]

theorem putAt_bin (old new : String) :
    (workspace bin item [code "Item" old]).putAt (code "Bin" new).1 new.toUTF8 =
      workspace bin item [code "Item" old, code "Bin" new] := by
  simp [putAt, workspace, contentAt?, code, codeOf]

theorem putAt_item (old new other : String) :
    (workspace bin item [code "Item" old, code "Bin" other]).putAt (code "Item" new).1 new.toUTF8 =
      workspace bin item [code "Item" new, code "Bin" other] := by
  simp [putAt, workspace, contentAt?, code, codeOf]

theorem read?_code {rest : List (Location × ByteArray)} (old : String) :
    (workspace bin item (code "Item" old :: rest)).read? (codePath "Item") = some old.toUTF8 := by
  have hpath : codePath "Item" = "/depot/code/Item.generated.cs" := by decide
  rw [hpath, read?, locate?, partsOf?_eq ["code", "Item.generated.cs"] (by simp [places])]
  simp [walk, workspace, isFolderAt, existsAt, contentAt?, code, codeOf]

/-- The code for bins has not been written yet. -/
theorem contentAt?_bin (old new : String) :
    (workspace bin item [code "Item" old]).contentAt? (code "Bin" new).1 = none := by
  simp [contentAt?, workspace, code, codeOf]

theorem contentAt?_item {rest : List (Location × ByteArray)} (old new : String) :
    (workspace bin item (code "Item" old :: rest)).contentAt? (code "Item" new).1 =
      some old.toUTF8 := by
  simp [contentAt?, workspace, code, codeOf]

theorem hasFolder_code : Job.code.HasFolder config := Option.some_ne_none "/depot/code"

/-- What becomes of the file for items, whether it has its text already or not. -/
theorem written_item (old new other : String) :
    written (workspace bin item [code "Item" old, code "Bin" other])
      (.ok (some (codePath "Item", new))) =
        (.ok (some (if old = new then .skipped else .written)),
          workspace bin item [code "Item" new, code "Bin" other]) := by
  split_ifs with hsame
  · subst hsame
    exact written_of_update (update_eq_skipped (read?_code old))
  · refine written_of_update ((update_code (by simp [tables]) ?_).trans (by rw [putAt_item]))
    rw [contentAt?_item]
    exact fun h => hsame (String.toByteArray_inj.1 (Option.some.inj h))

/-- The file for bins is a new one. -/
theorem written_bin (old new : String) :
    written (workspace bin item [code "Item" old]) (.ok (some (codePath "Bin", new))) =
      (.ok (some .written), workspace bin item [code "Item" old, code "Bin" new]) := by
  refine written_of_update ((update_code (by simp [tables]) ?_).trans (by rw [putAt_bin]))
  rw [contentAt?_bin]
  exact (Option.some_ne_none _).symm

/-- A run of a depot in which there is a file for items. -/
theorem counts_codes {old new new' : String}
    (hbin : (Job.code.plan config ("Bin" ++ schemaSuffix)).value
      ⟨workspace bin item [code "Item" old], .empty⟩ = .ok (some (codePath "Bin", new)))
    (hitem : (Job.code.plan config ("Item" ++ schemaSuffix)).value
      ⟨workspace bin item [code "Item" old], .empty⟩ = .ok (some (codePath "Item", new')))
    (hinputs : ∀ input ∈ (Job.code.plan config ("Item" ++ schemaSuffix)).inputs
      ⟨workspace bin item [code "Item" old], .empty⟩,
        input = Path.join config.schemaFolder ("Item" ++ schemaSuffix)) :
    ∃ later, (Job.code.counts config).run ⟨workspace bin item [code "Item" old], .empty⟩ =
        (.ok (count [.ok (some .written), .ok (some (if old = new' then .skipped else .written))]),
          later) ∧
      later.workspace = workspace bin item [code "Item" new', code "Bin" new] := by
  obtain ⟨later, hrun, hlater⟩ := run_pair hbin hitem (fun path text hdraft input hinput => by
      cases hdraft
      rw [hinputs input hinput]
      exact apart_code (by simp [tables]) (by simp [tables]))
    (by rw [written_bin]; exact goesOn_ok _)
    (by rw [written_bin, written_item]; exact goesOn_ok _)
  rw [written_bin, written_item] at hrun hlater
  exact ⟨later, Job.run_counts_of_outcomes hasFolder_code (names_code (by simp [code])).1 hrun,
    hlater⟩

/-- A run of a depot in which the code for items has its text, and that for bins fails. -/
theorem counts_of_error {new other : String} {e : SchemaError}
    (hbin : (Job.code.plan config ("Bin" ++ schemaSuffix)).value
      ⟨workspace bin item [code "Item" new, code "Bin" other], .empty⟩ = .error (.schema e))
    (hitem : (Job.code.plan config ("Item" ++ schemaSuffix)).value
      ⟨workspace bin item [code "Item" new, code "Bin" other], .empty⟩ =
        .ok (some (codePath "Item", new))) :
    ∃ later, (Job.code.counts config).run
      ⟨workspace bin item [code "Item" new, code "Bin" other], .empty⟩ =
        (.ok (count [.error (.schema e), .ok (some .skipped)]), later) := by
  obtain ⟨later, hrun, -⟩ := run_pair hbin hitem (fun path text hdraft => by cases hdraft)
    (fun e he => by cases he; rfl) (by rw [written, written_item]; exact goesOn_ok _)
  rw [written, written_item, if_pos rfl] at hrun
  have hnames : Job.code.names? config (workspace bin item [code "Item" new, code "Bin" other]) =
      some (tables.map (· ++ schemaSuffix)) := (names_code (by simp [code])).1
  exact ⟨later, Job.run_counts_of_outcomes hasFolder_code hnames hrun⟩

/-! ### A run that comes again -/

/-- A depot in which the code for items has been written before. -/
def start : BatchState :=
  ⟨workspace idText idText [code "Item" (codeOf "Item").render], .empty⟩

theorem names_start :
    Job.code.names? config start.workspace = some (tables.map (· ++ schemaSuffix)) ∧
      Job.code.looks config start.workspace =
        [⟨"/depot", false⟩, ⟨"/depot/schemas", false⟩, ⟨"/depot/schemas", true⟩,
          ⟨"/depot/schemas/Bin.schema.json", false⟩,
          ⟨"/depot/schemas/Item.schema.json", false⟩] :=
  @names_code idText idText [code "Item" (codeOf "Item").render] (by simp [code])

theorem codeFile_start {name : String} (hname : name ∈ tables) :
    codeFile config (name ++ schemaSuffix) start = .ok (some (codeOf name)) ∧
      codeDocuments config (name ++ schemaSuffix) start ⊆ [name ++ schemaSuffix] := by
  have hread : start.reading config.schemaFolder (name ++ schemaSuffix) = .ok idSchema := by
    rcases List.mem_pair.1 hname with rfl | rfl
    · exact reading_bin read?_idText (by decide)
    · exact reading_item read?_idText (by decide)
  exact codeFile_eq hname hread

theorem value_start (name : String) (hname : name ∈ tables) :
    (Job.code.plan config (name ++ schemaSuffix)).value start =
        .ok (some (codePath name, (codeOf name).render)) ∧
      ∀ input ∈ (Job.code.plan config (name ++ schemaSuffix)).inputs start,
        input = Path.join config.schemaFolder (name ++ schemaSuffix) :=
  ⟨value_code (codeFile_start hname).1, inputs_code (codeFile_start hname).2⟩

theorem sound_start : start.workspace.Sound where
  file location hcontent := by
    let files : List Location := [["schemas", "Bin.schema.json"], ["schemas", "Item.schema.json"],
      ["code", "Item.generated.cs"]]
    have hfile : location ∈ files := by
      by_contra hnone
      simp only [files, List.mem_cons, List.not_mem_nil, or_false, not_or] at hnone
      refine hcontent ?_
      simp [contentAt?, start, workspace, code, codeOf, Ne.symm hnone.1, Ne.symm hnone.2.1,
        Ne.symm hnone.2.2]
    have hall : ∀ location ∈ files, folders.isFolderAt location = false ∧
        ∃ name ∈ location.getLast?, isValidName name = true := by
      simp only [files, List.forall_mem_cons]
      simp [folders, isFolderAt]
      decide_cbv
    exact hall location hfile
  folder location hfolder other hother := by
    rcases isFolderAt_iff.1 hfolder with rfl | hin
    · rw [List.prefix_nil.1 hother]
      rfl
    · obtain ⟨name, rfl⟩ : ∃ name, location = [name] := by
        simp only [start, workspace, List.mem_cons, List.not_mem_nil, or_false] at hin
        rcases hin with rfl | rfl | rfl | rfl <;> exact ⟨_, rfl⟩
      rcases List.prefix_cons_iff.1 hother with rfl | ⟨rest, rfl, hrest⟩
      · rfl
      · rw [List.prefix_nil.1 hrest]
        exact hfolder

theorem repeatable_start : Repeatable (Job.code.plan config) start
    (Job.code.looks config start.workspace)
    ((Job.code.names? config start.workspace).getD []) := by
  obtain ⟨hnames, hlooks⟩ := names_start
  have hpath : ∀ name ∈ tables.map (· ++ schemaSuffix), ∀ path text,
      (Job.code.plan config name).value start = .ok (some (path, text)) →
        ∃ table ∈ tables, path = codePath table := by
    intro name hname path text hdraft
    obtain ⟨table, htable, rfl⟩ := List.mem_map.1 hname
    rw [(value_start table htable).1] at hdraft
    cases hdraft
    exact ⟨table, htable, rfl⟩
  rw [hnames, hlooks, Option.getD_some]
  constructor
  · intro name hname path text hdraft other hother input hinput
    obtain ⟨table, htable, rfl⟩ := hpath name hname path text hdraft
    obtain ⟨table', htable', rfl⟩ := List.mem_map.1 hother
    rw [(value_start table' htable').2 input hinput]
    exact apart_code htable htable'
  · intro name hname path text hdraft
    obtain ⟨table, htable, rfl⟩ := hpath name hname path text hdraft
    have hall : ∀ table ∈ tables, ∀ look ∈ [(⟨"/depot", false⟩ : Look), ⟨"/depot/schemas", false⟩,
        ⟨"/depot/schemas", true⟩, ⟨"/depot/schemas/Bin.schema.json", false⟩,
        ⟨"/depot/schemas/Item.schema.json", false⟩], look.Clear folders (codePath table) := by
      decide
    exact hall table htable
  · refine List.pairwise_pair.2 fun path text path' text' hdraft hdraft' htarget => ?_
    rw [(value_start "Bin" (by simp [tables])).1] at hdraft
    rw [(value_start "Item" (by simp [tables])).1] at hdraft'
    cases hdraft
    cases hdraft'
    have hne : folders.targetOf (codePath "Bin") ≠ folders.targetOf (codePath "Item") := by
      decide
    exact absurd htarget hne

/-- The first run writes the code for bins. -/
theorem counts_start : ∃ later, (Job.code.counts config).run start = (.ok ⟨1, 1, 0⟩, later) := by
  obtain ⟨hitem, hinputs⟩ := value_start "Item" (by simp [tables])
  obtain ⟨later, hrun, -⟩ :=
    counts_codes (value_start "Bin" (by simp [tables])).1 hitem hinputs
  rw [if_pos rfl] at hrun
  exact ⟨later, hrun⟩

/-- The code of a depot is written once. -/
theorem run_again_start :
    start.workspace.Sound ∧
    Repeatable (Job.code.plan config) start (Job.code.looks config start.workspace)
      ((Job.code.names? config start.workspace).getD []) ∧
    ∃ later, (Job.code.counts config).run start = (.ok ⟨1, 1, 0⟩, later) ∧
      (Job.code.run config).run start = (.ok ⟨1, 1, 0⟩, later) ∧
      ∀ known, known = later.known ∨ known = start.known →
        ∃ known', (Job.code.counts config).run ⟨later.workspace, known⟩ =
            (.ok ⟨0, 2, 0⟩, ⟨later.workspace, known'⟩) ∧
          (Job.code.run config).run ⟨later.workspace, known⟩ =
            (.ok ⟨0, 2, 0⟩, ⟨later.workspace, known'⟩) := by
  obtain ⟨later, hrun⟩ := counts_start
  obtain ⟨hfirst, hagain⟩ :=
    Job.run_again config .code start sound_start repeatable_start hrun
  exact ⟨sound_start, repeatable_start, later, hrun, hfirst, hagain⟩

/-- A schema that stands in the file for the code of the items. -/
def crossSchema : Json := .obj [("$ref", .str "../code/Item.generated.cs")]

/-- Its text. -/
def crossText : String := "\x7b\"$ref\":\"../code/Item.generated.cs\"\x7d"

/-- A depot in which the schema of bins refers to the file for the code of items, where there is a
schema at first. -/
def crossed : BatchState := ⟨workspace crossText idText [code "Item" idText], .empty⟩

/-- Where the schema of bins leads. -/
theorem read?_cross {rest : List (Location × ByteArray)} (old : String) :
    (workspace bin item (code "Item" old :: rest)).read?
      (Path.join config.schemaFolder "../code/Item.generated.cs") = some old.toUTF8 := by
  have hpath : Path.join config.schemaFolder "../code/Item.generated.cs" =
      "/depot/schemas/../code/Item.generated.cs" := by decide
  rw [hpath, read?, locate?,
    partsOf?_eq ["schemas", "..", "code", "Item.generated.cs"] (by simp [places])]
  simp [walk, workspace, isFolderAt, existsAt, contentAt?, code, codeOf]

theorem reading_cross {more : List (Location × ByteArray)} :
    BatchState.reading ⟨workspace crossText item more, .empty⟩ config.schemaFolder
      ("Bin" ++ schemaSuffix) = .ok crossSchema :=
  reading_bin (by cbv) (by decide)

/-- While the schema is there, it is the one of the bins. -/
theorem codeFile_crossed :
    codeFile config ("Bin" ++ schemaSuffix) crossed = .ok (some (codeOf "Bin")) := by
  refine (codeFile_of_documents [("Bin" ++ schemaSuffix, crossSchema),
    ("../code/Item.generated.cs", idSchema)] (by decide +kernel) (by decide +kernel)
    fun entry hentry => ?_).1
  rcases List.mem_pair.1 hentry with rfl | rfl
  · exact reading_cross
  · exact BatchState.reading_of_text rfl (read?_cross _) read?_idText (by decide)

/-- After the run there is code in its place. -/
theorem codeFile_recrossed {rest : List (Location × ByteArray)} :
    codeFile config ("Bin" ++ schemaSuffix)
      ⟨workspace crossText idText (code "Item" (codeOf "Item").render :: rest), .empty⟩ =
        .error (.unreadable "../code/Item.generated.cs") := by
  have hcode : Json.read? (codeOf "Item").render = none := by cbv
  have hfile : codeFile config ("Bin" ++ schemaSuffix)
        (.ofDocuments [("Bin" ++ schemaSuffix, crossSchema)]) =
          .error (.unreadable "../code/Item.generated.cs") ∧
      codeDocuments config ("Bin" ++ schemaSuffix)
        (.ofDocuments [("Bin" ++ schemaSuffix, crossSchema)]) ⊆
          ["Bin" ++ schemaSuffix, "../code/Item.generated.cs"] := by
    decide +kernel
  refine (codeFile_congr fun name hname => ?_).1.trans hfile.1
  rcases List.mem_pair.1 (hfile.2 hname) with rfl | rfl
  · exact reading_cross
  · have hmissing : (BatchState.ofDocuments [("Bin" ++ schemaSuffix, crossSchema)]).reading
        config.schemaFolder "../code/Item.generated.cs" =
          .error (.unreadable "../code/Item.generated.cs") := rfl
    rw [hmissing]
    exact BatchState.reading_of_unreadable rfl (read?_cross _) hcode

/-- **A run that writes over what it has read does not come again.** In a new session the schema of
bins is not found where it was. -/
theorem counts_crossed :
    ∃ later later', (Job.code.counts config).run crossed = (.ok ⟨2, 0, 0⟩, later) ∧
      (Job.code.counts config).run ⟨later.workspace, .empty⟩ = (.ok ⟨0, 1, 1⟩, later') := by
  have hitem : ∀ more, codeFile config ("Item" ++ schemaSuffix)
        ⟨workspace crossText idText more, .empty⟩ = .ok (some (codeOf "Item")) ∧
      codeDocuments config ("Item" ++ schemaSuffix) ⟨workspace crossText idText more, .empty⟩ ⊆
        ["Item" ++ schemaSuffix] :=
    fun more => codeFile_eq (by simp [tables]) (reading_item read?_idText (by decide))
  obtain ⟨later, hrun, hlater⟩ := counts_codes (value_code codeFile_crossed)
    (value_code (hitem _).1) (inputs_code (hitem _).2)
  have hne : idText ≠ (codeOf "Item").render := by decide_cbv
  rw [if_neg hne] at hrun
  have hbin : (Job.code.plan config ("Bin" ++ schemaSuffix)).value ⟨workspace crossText idText
      [code "Item" (codeOf "Item").render, code "Bin" (codeOf "Bin").render], .empty⟩ =
        .error (.schema (.unreadable "../code/Item.generated.cs")) := by
    rw [Job.plan, Preparation.value_code, codeFile_recrossed]
    rfl
  obtain ⟨later', hrun'⟩ := counts_of_error hbin (value_code (hitem _).1)
  exact ⟨later, later', hrun, hlater ▸ hrun'⟩

end Depot

end TableExport
