import Mathlib.Data.List.DropRight
import TableExport.Proofs.Batch.Again
import TableExport.Proofs.Code.FileNames

/-!
# The files of a run for code

The files of a run for code lie in one folder and have different names, when the documents have plain
names. So each is a sibling of the others (`Naming.siblings_fileName`), a step leaves those that are
there (`Batch.read?_exportDocument`), and at the end of the run all that were written can be read
(`Batch.exportCode_files`). Nothing is needed of where the folder is: a run may write into
the folder of the schemas.
-/

namespace TableExport

open TableExport.Path

/-! ## Siblings -/

/-- A text is cut behind its last slash. -/
theorem Path.exists_dir_append (text : List Char) :
    ∃ dir base, text = dir ++ base ∧ '/' ∉ base ∧ Pointer.EndsPart '/' dir := by
  refine ⟨text.rdropWhile (· != '/'), text.rtakeWhile (· != '/'),
    List.rdropWhile_append_rtakeWhile.symm, fun h => by simpa using List.mem_rtakeWhile_imp h, ?_⟩
  rcases List.eq_nil_or_concat (text.rdropWhile (· != '/')) with hnil | ⟨init, last, hlast⟩
  · exact Or.inl hnil
  · have hstop := List.rdropWhile_last_not (· != '/') text (by simp [hlast])
    simp only [hlast, List.concat_eq_append, List.getLast_append_singleton, bne_iff_ne, ne_eq,
      not_not] at hstop
    rw [List.concat_eq_append, hstop] at hlast
    exact Or.inr ⟨init, hlast⟩

/-- Paths in a folder that start with one text have one front, before a name of their own. -/
theorem Path.exists_front (folder lead : String) :
    ∃ (front : List Char) (base : String), Pointer.EndsPart '/' front ∧ '/' ∉ base.toList ∧
      ∀ rest : String, '/' ∉ rest.toList →
        (join folder (lead ++ rest)).toList = front ++ (base ++ rest).toList := by
  obtain ⟨dir, base, hlead, hbase, hdir⟩ := exists_dir_append lead.toList
  have hpath : ∀ rest : String,
      (lead ++ rest).toList = dir ++ (String.ofList base ++ rest).toList := by
    intro rest
    rw [String.toList_append, String.toList_append, String.toList_ofList, hlead, List.append_assoc]
  rcases hdir with hnil | ⟨init, hinit⟩
  · refine ⟨folderText folder, String.ofList base, endsPart_folderText folder, by simpa using hbase,
      fun rest hrest => ?_⟩
    rw [toList_join folder, hpath, hnil, List.nil_append]
    rw [hpath, hnil, List.nil_append, String.toList_append, String.toList_ofList, List.mem_append,
      not_or]
    exact ⟨hbase, hrest⟩
  · have hhead : ∀ rest : String, (lead ++ rest).toList.head? = dir.head? := by
      intro rest
      rw [hpath, hinit, List.head?_append]
      cases init <;> simp
    by_cases habsolute : dir.head? = some '/'
    · refine ⟨dir, String.ofList base, Or.inr ⟨init, hinit⟩, by simpa using hbase, fun rest _ => ?_⟩
      rw [join, if_pos (by rw [isAbsolute, hhead, habsolute, beq_self_eq_true]), hpath]
    · refine ⟨folderText folder ++ dir, String.ofList base,
        Or.inr ⟨folderText folder ++ init, by rw [hinit, List.append_assoc]⟩,
        by simpa using hbase, fun rest _ => ?_⟩
      rw [join, if_neg (by rw [isAbsolute, hhead, beq_iff_eq]; exact habsolute), folderText]
      split_ifs
      · rw [String.toList_append, hpath, List.append_assoc]
      · have hslash : "/".toList = ['/'] := by simp
        rw [String.toList_append, hpath, String.toList_append, ← List.append_assoc, hslash]

/-- **Files of different names lie side by side.** -/
theorem Naming.siblings_fileName (naming : Naming) (workspace : Workspace) (folder : String)
    {first second : String} (hslash : '/' ∉ first.toList) (hslash' : '/' ∉ second.toList)
    (hne : naming.fileName first ≠ naming.fileName second) :
    workspace.Siblings (join folder (naming.fileName first))
      (join folder (naming.fileName second)) := by
  obtain ⟨front, base, hfront, hbase, htext⟩ := exists_front folder naming.lead
  let name (stem : String) : String := base ++ (capitalize stem ++ ".generated.cs")
  have hends : ∀ stem : String, '/' ∉ stem.toList →
      '/' ∉ (capitalize stem ++ ".generated.cs").toList := by
    intro stem hstem
    rw [String.toList_append, List.mem_append, not_or]
    exact ⟨slash_not_mem_capitalize hstem, by decide⟩
  have hslashes : ∀ stem : String, '/' ∉ stem.toList → '/' ∉ (name stem).toList := by
    intro stem hstem
    rw [String.toList_append, List.mem_append, not_or]
    exact ⟨hbase, hends stem hstem⟩
  have hname : ∀ stem : String, IsName (name stem) := by
    intro stem
    have hlength : 13 ≤ (name stem).toList.length := by
      simp only [name, String.toList_append, List.length_append]
      exact Nat.le_add_left_of_le (Nat.le_add_left _ _)
    refine ⟨?_, ?_, ?_⟩ <;> (intro h; rw [h] at hlength; exact absurd hlength (by decide))
  have hpath : ∀ stem : String, '/' ∉ stem.toList →
      (join folder (naming.fileName stem)).toList = front ++ (name stem).toList := by
    intro stem hstem
    rw [Naming.fileName, String.append_assoc, htext _ (hends stem hstem)]
  refine workspace.siblings_of_text hfront (hpath first hslash) (hpath second hslash')
    (fun heq => hne ?_) (hname first) (hname second) (hslashes first hslash)
    (hslashes second hslash')
  have htexts := congrArg String.toList heq
  simp only [name, String.toList_append] at htexts
  rw [Naming.fileName, Naming.fileName, String.append_assoc, String.append_assoc]
  refine congrArg (naming.lead ++ ·) (String.ext ?_)
  rw [String.toList_append, String.toList_append]
  exact List.append_cancel_left htexts

namespace Batch

variable {config : Config} {folder path document : String} {state later : BatchState}
  {documents : List String} {content : ByteArray}

/-! ## Steps -/

/-- The draft for the code of a document. -/
def codeValue (config : Config) (folder document : String) (state : BatchState) :
    Except BatchError Draft :=
  ((codeFile config document state).mapError .schema).map (Preparation.codeDraft folder)

theorem run_exportDocument (config : Config) (folder document : String) (state : BatchState) :
    ∃ known, (exportDocument config folder document).run state =
      ((written state.workspace (codeValue config folder document state)).1,
        ⟨(written state.workspace (codeValue config folder document state)).2, known⟩) := by
  obtain ⟨known, hrun, -⟩ := (Preparation.code config folder document).run_step state
  rw [Preparation.step_code, Preparation.value_code] at hrun
  exact ⟨known, hrun⟩

theorem value_plan (hfolder : config.codeFolder = some folder) :
    (Job.code.plan config document).value state = codeValue config folder document state := by
  rw [Job.plan, Preparation.value_code, hfolder]
  rfl

/-- No document ends a run. -/
theorem goesOn_code (workspace : Workspace) :
    GoesOn (written workspace (codeValue config folder document state)).1 := by
  intro e he
  cases hfile : codeFile config document state with
  | error cause =>
    rw [codeValue, hfile] at he
    cases he
    rfl
  | ok file? =>
    cases file? with
    | none =>
      rw [codeValue, hfile] at he
      cases he
    | some file =>
      rw [codeValue, hfile] at he
      obtain ⟨cause, -, rfl⟩ := written_eq_error he
      rfl

theorem codeValue_eq_some {text : String}
    (h : codeValue config folder document state = .ok (some (path, text))) :
    ∃ file, codeFile config document state = .ok (some file) ∧ path = join folder file.name ∧
      text = file.render := by
  obtain ⟨file?, hfile, hdraft⟩ := map_eq_ok.1 h
  obtain ⟨file, rfl, hfile'⟩ := Option.map_eq_some_iff.1 hdraft
  cases hfile'
  exact ⟨file, mapError_eq_ok.1 hfile, rfl, rfl⟩

theorem name_of_codeFile {file : CodeFile} (h : codeFile config document state = .ok (some file)) :
    file.name = Naming.fileName ⟨config.codeLead⟩ (displayName document) := by
  rw [codeFile, Query.answer_documentFile] at h
  exact Naming.name_of_documentFile h

/-- **A step leaves the files of other documents.** -/
theorem read?_exportDocument (hread : state.workspace.read? path = some content)
    (hsiblings : ∀ workspace : Workspace, workspace.Siblings path
      (join folder (Naming.fileName ⟨config.codeLead⟩ (displayName document)))) :
    ((exportDocument config folder document).run state).2.workspace.read? path = some content := by
  obtain ⟨known, hrun⟩ := run_exportDocument config folder document state
  rw [hrun]
  obtain ⟨hleads, hcontent⟩ := Workspace.read?_eq_some.1 hread
  have hgrows := grows_written state.workspace (codeValue config folder document state)
  refine Workspace.read?_eq_some.2 ⟨hgrows.leadsTo hleads, ?_⟩
  rw [Workspace.targetOf_congr hgrows.root, contentAt?_written, hcontent]
  intro other text hdraft htarget
  obtain ⟨file, hfile, rfl, -⟩ := codeValue_eq_some hdraft
  rw [name_of_codeFile hfile] at htarget
  exact (hsiblings state.workspace).2 htarget

/-- A step that writes or skips a file leaves it with the text. -/
theorem read?_of_done {file : CodeFile} {status : WriteStatus}
    (hfile : codeFile config document state = .ok (some file))
    (hdone : ((exportDocument config folder document).run state).1 = .ok (some status)) :
    ((exportDocument config folder document).run state).2.workspace.read?
      (join folder file.name) = some file.render.toUTF8 := by
  obtain ⟨known, hrun⟩ := run_exportDocument config folder document state
  rw [hrun] at hdone ⊢
  have hvalue : codeValue config folder document state =
      .ok (some (join folder file.name, file.render)) := by
    rw [codeValue, hfile]
    rfl
  rw [hvalue] at hdone ⊢
  obtain ⟨status', hstatus, -⟩ := map_eq_ok.1 hdone
  exact (Workspace.updates_update _ _ _).done status' (mapError_eq_ok.1 hstatus)

/-! ## Runs -/

/-- What a run has become after some documents. -/
def stateAfter (config : Config) (folder : String) (state : BatchState)
    (documents : List String) : BatchState :=
  ((outcomes (exportDocument config folder) documents).run state).2

/-- **A run for code comes to its end.** -/
theorem exists_run_outcomes (documents : List String) (state : BatchState) :
    ∃ results, (outcomes (exportDocument config folder) documents).run state =
      (.ok results, stateAfter config folder state documents) := by
  induction documents generalizing state with
  | nil => exact ⟨[], rfl⟩
  | cons document rest ih =>
    obtain ⟨known, hrun⟩ := run_exportDocument config folder document state
    obtain ⟨results, hresults⟩ := ih
      ⟨(written state.workspace (codeValue config folder document state)).2, known⟩
    have hall := run_outcomes_cons hrun (goesOn_code _) hresults
    exact ⟨_, by rw [stateAfter, hall]⟩

theorem stateAfter_cons (document : String) (rest : List String) :
    stateAfter config folder state (document :: rest) = stateAfter config folder
      ((exportDocument config folder document).run state).2 rest := by
  obtain ⟨known, hrun⟩ := run_exportDocument config folder document state
  obtain ⟨results, hresults⟩ := @exists_run_outcomes config folder rest
    ⟨(written state.workspace (codeValue config folder document state)).2, known⟩
  rw [hrun, stateAfter, run_outcomes_cons hrun (goesOn_code _) hresults]

theorem stateAfter_append (before after : List String) :
    stateAfter config folder state (before ++ after) =
      stateAfter config folder (stateAfter config folder state before) after := by
  induction before generalizing state with
  | nil => rfl
  | cons document rest ih => rw [List.cons_append, stateAfter_cons, stateAfter_cons, ih]

/-- A run leaves the files of other documents. -/
theorem read?_stateAfter (hread : state.workspace.read? path = some content)
    (hsiblings : ∀ document ∈ documents, ∀ workspace : Workspace, workspace.Siblings path
      (join folder (Naming.fileName ⟨config.codeLead⟩ (displayName document)))) :
    (stateAfter config folder state documents).workspace.read? path = some content := by
  induction documents generalizing state with
  | nil => exact hread
  | cons document rest ih =>
    obtain ⟨hfirst, hrest⟩ := List.forall_mem_cons.1 hsiblings
    rw [stateAfter_cons]
    exact ih (read?_exportDocument hread hfirst) hrest

/-- The names of a run for code have no slash. -/
theorem slash_not_mem_names {workspace : Workspace}
    (hnames : Job.code.names? config workspace = some documents) :
    ∀ document ∈ documents, '/' ∉ document.toList := by
  intro document hdocument
  rw [Job.names?] at hnames
  obtain ⟨paths, -, rfl⟩ := Option.map_eq_some_iff.1 hnames
  obtain ⟨path, -, hname⟩ := List.mem_filterMap.1 hdocument
  exact not_mem_of_fileName? hname

/-- **Different documents do not overwrite each other's code.** When the documents of a folder have
plain names that differ not only in the case of their first letters, their files have different
names, whatever documents are known. The run for code comes to its end, and leaves the code of every
document that had some when its turn came, unless its file could not be written. -/
theorem exportCode_files (config : Config) {folder : String}
    (hfolder : config.codeFolder = some folder) (start : BatchState) {stems : List String}
    (hnames : Job.code.names? config start.workspace = some (stems.map (· ++ schemaSuffix)))
    (hplain : ∀ stem ∈ stems, PlainStem stem)
    (hdistinct : stems.Pairwise fun first second => ¬ SameLetters first second) :
    (stems.Pairwise fun first second => ∀ library library' file file',
      Naming.documentFile ⟨config.codeLead⟩ library (first ++ schemaSuffix) =
        (.ok (some file) : Except SchemaError (Option CodeFile)) →
      Naming.documentFile ⟨config.codeLead⟩ library' (second ++ schemaSuffix) =
        (.ok (some file') : Except SchemaError (Option CodeFile)) → file.name ≠ file'.name) ∧
    ∃ results later,
      (outcomes (exportDocument config folder) (stems.map (· ++ schemaSuffix))).run start =
        (.ok results, later) ∧
      (exportCode config).run start = ((count results).result.mapError .failed, later) ∧
      ∀ before stem after, stems = before ++ stem :: after →
        let turn := stateAfter config folder start (before.map (· ++ schemaSuffix))
        ∀ file status, codeFile config (stem ++ schemaSuffix) turn = .ok (some file) →
          ((exportDocument config folder (stem ++ schemaSuffix)).run turn).1 = .ok (some status) →
          later.workspace.read? (join folder file.name) = some file.render.toUTF8 := by
  have hslash : ∀ stem ∈ stems, '/' ∉ stem.toList := by
    intro stem hstem hmem
    refine slash_not_mem_names hnames _ (List.mem_map_of_mem hstem) ?_
    rw [String.toList_append]
    exact List.mem_append_left _ hmem
  have hne : stems.Pairwise fun first second =>
      Naming.fileName ⟨config.codeLead⟩ (displayName (first ++ schemaSuffix)) ≠
        Naming.fileName ⟨config.codeLead⟩ (displayName (second ++ schemaSuffix)) :=
    hdistinct.imp_of_mem fun hfirst hsecond hne => (hplain _ hfirst).fileName_ne _
      (hplain _ hsecond) (hslash _ hfirst) (hslash _ hsecond) hne
  refine ⟨hne.imp fun hne library library' file file' hfile hfile' => ?_, ?_⟩
  · rwa [Naming.name_of_documentFile hfile, Naming.name_of_documentFile hfile']
  obtain ⟨results, hresults⟩ :=
    @exists_run_outcomes config folder (stems.map (· ++ schemaSuffix)) start
  refine ⟨results, _, hresults, ?_, fun before stem after hstems file status hfile hdone => ?_⟩
  · change (Job.code.run config).run start = _
    refine Job.run_of_counts (Job.run_counts_of_outcomes ?_ hnames ?_)
    · rw [Job.HasFolder, hfolder]
      exact Option.some_ne_none _
    · simpa only [Job.plan, Preparation.step_code, hfolder, Option.getD_some] using hresults
  · subst hstems
    rw [List.map_append, List.map_cons, stateAfter_append, stateAfter_cons]
    refine read?_stateAfter (read?_of_done hfile hdone) fun document hdocument workspace => ?_
    obtain ⟨other, hother, rfl⟩ := List.mem_map.1 hdocument
    have hstem : stem ∈ before ++ stem :: after := by simp
    have hmem : other ∈ before ++ stem :: after := by simp [hother]
    have hlater := (List.pairwise_cons.1 (List.pairwise_append.1 hne).2.1).1 other hother
    rw [name_of_codeFile hfile]
    rw [(hplain _ hstem).displayName_document (hslash _ hstem),
      (hplain _ hmem).displayName_document (hslash _ hmem)] at hlater ⊢
    exact Naming.siblings_fileName _ workspace folder (hslash _ hstem) (hslash _ hmem) hlater

end Batch

namespace Depot

open Batch

set_option maxRecDepth 10000 in
theorem plainStem_tables : ∀ stem ∈ tables, PlainStem stem := by
  have hb : Upper.ofChar 'B' = ['B'] := by decide
  have hi : Upper.ofChar 'I' = ['I'] := by decide
  intro stem hstem
  rcases List.mem_pair.1 hstem with rfl | rfl
  · refine ⟨by decide, by decide, fun c hc => ?_⟩
    obtain rfl : 'B' = c := Option.some.inj hc
    rw [hb]
    rfl
  · refine ⟨by decide, by decide, fun c hc => ?_⟩
    obtain rfl : 'I' = c := Option.some.inj hc
    rw [hi]
    rfl

/-- The code for bins is left by the step for items. -/
theorem exportCode_files_start :
    config.codeFolder = some "/depot/code" ∧
    Job.code.names? config start.workspace = some (tables.map (· ++ schemaSuffix)) ∧
    (∀ stem ∈ tables, PlainStem stem) ∧
    (tables.Pairwise fun first second => ¬ SameLetters first second) ∧
    ((exportCode config).run start).2.workspace.read? (codePath "Bin") =
      some (codeOf "Bin").render.toUTF8 := by
  have hdistinct : tables.Pairwise fun first second => ¬ SameLetters first second :=
    List.pairwise_pair.2 fun h => absurd h.2 (by decide)
  obtain ⟨-, results, later, -, hrun, hfiles⟩ :=
    exportCode_files config rfl start names_start.1 plainStem_tables hdistinct
  have hfile := (codeFile_start (show "Bin" ∈ tables by simp [tables])).1
  have hdone : ((exportDocument config "/depot/code" ("Bin" ++ schemaSuffix)).run start).1 =
      .ok (some .written) := by
    have hvalue : codeValue config "/depot/code" ("Bin" ++ schemaSuffix) start =
        .ok (some (codePath "Bin", (codeOf "Bin").render)) := by
      rw [← value_plan rfl, value_code hfile]
    obtain ⟨known, hstep⟩ :=
      run_exportDocument config "/depot/code" ("Bin" ++ schemaSuffix) start
    rw [hstep, hvalue, start, written_bin]
  refine ⟨rfl, names_start.1, plainStem_tables, hdistinct, ?_⟩
  rw [hrun]
  exact hfiles [] "Bin" ["Item"] rfl (codeOf "Bin") .written hfile hdone

end Depot

end TableExport
