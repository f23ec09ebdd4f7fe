import TableExport.Batch.Basic
import TableExport.Proofs.Files.Repeats
import TableExport.Proofs.Schema.Bounds

/-!
# What a step reads before it writes

A step of a run finds out what to write and then writes it. Before it writes, it changes nothing but
the known documents, and what can be read stays the same. What it finds out depends only on the
documents that it asks for and on its workbook (`Preparation`). The steps for tables and for
the code of schema documents are of this kind (`Preparation.table`, `Preparation.code`).
-/

namespace TableExport

namespace BatchState

variable {state other : BatchState} {folder start : String}

/-- What is read under the name of a schema document. -/
def reading (state : BatchState) (folder name : String) : Except SchemaError Json :=
  state.known.reading (state.workspace.schema folder) name

theorem reading_def (state : BatchState) (folder : String) :
    state.reading folder = state.known.reading (state.workspace.schema folder) := rfl

theorem fromUTF8?_toUTF8 (text : String) : String.fromUTF8? text.toUTF8 = some text :=
  dif_pos text.isValidUTF8

/-- A document that is not known yet is read from its file. -/
theorem reading_of_text {name text : String} {document : Json}
    (hknown : state.known.get? name = none)
    (hread : state.workspace.read? (Path.join folder name) = some text.toUTF8)
    (hdocument : Json.read? text = some document) (hshape : Shape.check name document = .ok ()) :
    state.reading folder name = .ok document := by
  rw [reading_def, Documents.reading, hknown, Workspace.schema, Workspace.readText?, hread,
    Option.bind_some, fromUTF8?_toUTF8, Option.bind_some, hdocument]
  simp only [hshape, Except.map]

/-- A file with a text that is no document cannot be read as one. -/
theorem reading_of_unreadable {name text : String} (hknown : state.known.get? name = none)
    (hread : state.workspace.read? (Path.join folder name) = some text.toUTF8)
    (hdocument : Json.read? text = none) :
    state.reading folder name = .error (.unreadable name) := by
  rw [reading_def, Documents.reading, hknown, Workspace.schema, Workspace.readText?, hread,
    Option.bind_some, fromUTF8?_toUTF8, Option.bind_some, hdocument]

/-- The state in which some documents are known, and there are no files. -/
def ofDocuments (documents : Entries Json) : BatchState := ⟨{ root := "" }, ⟨documents⟩⟩

/-- Documents that are read as they stand in a list are read alike with these alone. -/
theorem reading_ofDocuments {documents : Entries Json} {name : String}
    (hread : ∀ entry ∈ documents, state.reading folder entry.1 = .ok entry.2)
    (hname : name ∈ documents.keys) :
    state.reading folder name = (ofDocuments documents).reading folder name := by
  obtain ⟨schema, hschema⟩ := Entries.exists_get?_of_mem_keys hname
  rw [hread _ (Entries.mem_of_get? hschema), reading_def]
  exact (Documents.reading_of_get? hschema).symm

/-- The bound of the library of a folder. -/
def bound (state : BatchState) (folder : String) (size : Nat) : Nat :=
  (state.workspace.library folder state.known size).bound

/-- **A steady step has the same result in two states** that read the same under the names that it
asks for in one of them, and asks for no others in the other one. -/
theorem answer_eq {α : Type} {query : Nat → Query α} {Starts : List String → Nat → Prop}
    (hsteady : Query.Steady start Starts query) (size : Nat) (nodes : List Json)
    (hsize : (nodes.map Json.size).sum ≤ size)
    (hstarts : ∀ references room, (∀ node ∈ nodes, Inside start references room start node) →
      Starts references room)
    (hread : ∀ name ∈ (query (state.bound folder size)).asked (state.reading folder),
      other.reading folder name = state.reading folder name) :
    (query (other.bound folder size)).answer (other.reading folder) =
        (query (state.bound folder size)).answer (state.reading folder) ∧
      (query (other.bound folder size)).asked (other.reading folder) ⊆
        (query (state.bound folder size)).asked (state.reading folder) := by
  obtain ⟨references, room, hroomy, hinside⟩ :=
    state.workspace.exists_roomy folder state.known start hsize
  obtain ⟨references', room', hroomy', hinside'⟩ :=
    other.workspace.exists_roomy folder other.known start hsize
  exact hsteady.answer_eq hroomy (hstarts _ _ hinside) hroomy' (hstarts _ _ hinside') hread

end BatchState

namespace Batch

variable {α : Type} {config : Config} {folder path : String} {state other : BatchState}

/-- A step that changes nothing but the known documents, and not what is read, has a result. -/
def Yields (folder : String) (step : Batch α) (state : BatchState)
    (result : Except BatchError α) : Prop :=
  ∃ known, step.run state = (result, { state with known }) ∧
    BatchState.reading { state with known } folder = state.reading folder

theorem yields_withSchemas (folder : String) (size : Nat) (query : Nat → Query α)
    {step : Library Session → Session α}
    (hstep : ∀ library, (query library.bound).answer library.read = step library)
    (state : BatchState) :
    Yields folder (withSchemas folder size step) state
      (((query (state.bound folder size)).answer (state.reading folder)).mapError .schema) := by
  obtain ⟨hresult, hreading⟩ := @Query.run_session α (state.workspace.schema folder)
    (state.bound folder size) (query (state.bound folder size)) state.known
  refine ⟨((step (state.workspace.library folder state.known size)).run state.known).2, ?_, ?_⟩
  · rw [BatchState.reading_def, ← hresult]
    simp only [withSchemas, ExceptT.run_mk, ← hstep]
    rfl
  · rw [← hstep]
    exact hreading

theorem Yields.bind {β : Type} {step : Batch α} {next : α → Batch β} {result : Except BatchError α}
    {f : α → Except BatchError β} (h : Yields folder step state result)
    (hnext : ∀ a known, result = .ok a →
      BatchState.reading { state with known } folder = state.reading folder →
      Yields folder (next a) { state with known } (f a)) :
    Yields folder (step >>= next) state (result >>= f) := by
  obtain ⟨known, hrun, hreading⟩ := h
  cases result with
  | error e => exact ⟨known, run_bind_of_error hrun, hreading⟩
  | ok a =>
    obtain ⟨known', hrun', hreading'⟩ := hnext a known rfl hreading
    exact ⟨known', (run_bind_of_ok hrun).trans hrun', hreading'.trans hreading⟩

theorem yields_ofExcept {ε : Type} (error : ε → BatchError) (result : Except ε α)
    (state : BatchState) : Yields folder (ofExcept error result) state (result.mapError error) :=
  ⟨state.known, rfl, rfl⟩

theorem yields_pure (a : α) (state : BatchState) : Yields folder (pure a) state (.ok a) :=
  ⟨state.known, rfl, rfl⟩

theorem Yields.map {β : Type} {step : Batch α} {result : Except BatchError α} (f : α → β)
    (h : Yields folder step state result) : Yields folder (f <$> step) state (result.map f) := by
  obtain ⟨known, hrun, hreading⟩ := h
  refine ⟨known, ?_, hreading⟩
  rw [map_eq_pure_bind, run_bind, hrun]
  cases result <;> rfl

/-! ## Tables -/

/-- The sheet of a workbook that holds its table. -/
def sheetOf (config : Config) (workspace : Workspace) (path : String) :
    Except WorkbookError Sheet := do
  (← Workbook.ofFile workspace path).readSheet config.sheetName

theorem yields_readSheet (state : BatchState) :
    Yields folder (readSheet config path) state
      ((sheetOf config state.workspace path).mapError .workbook) :=
  ⟨state.known, rfl, rfl⟩

/-- The path of the file for a table. -/
def tablePath (config : Config) (path : String) : String :=
  Path.join config.dataFolder (Path.stem path ++ ".json")

/-- The schema document of a table. -/
def tableDocument (path : String) : String := Path.stem path ++ schemaSuffix

/-- The schema of a table and its type. -/
def tableSchema (config : Config) (path : String) (state : BatchState) :
    Except SchemaError (Json × TypeTree) :=
  (Query.table (tableDocument path) (state.bound config.schemaFolder 0)).answer
    (state.reading config.schemaFolder)

/-- What is asked to inline the schema of a table. -/
def inlining (config : Config) (path : String) (state : BatchState) (schema : Json) : Query Json :=
  (Query.library (state.bound config.schemaFolder schema.size)).inline (tableDocument path) schema

/-- The schema of a table without references. -/
def inlinedSchema (config : Config) (path : String) (state : BatchState) (schema : Json) :
    Except SchemaError Json :=
  (inlining config path state schema).answer (state.reading config.schemaFolder)

/-- The table of a workbook, by what is read. -/
def tableValue (config : Config) (path : String) (state : BatchState) : Except BatchError Json :=
  (tableSchema config path state).mapError .schema >>= fun found =>
  (sheetOf config state.workspace path).mapError .workbook >>= fun sheet =>
  (extractTable sheet found.2).mapError .table >>= fun records =>
  (inlinedSchema config path state found.1).mapError .schema >>= fun inlined =>
  (Validator.ofSchema? (Path.stem path) inlined >>= fun validator =>
    validator.validate (tableJson records)).mapError .validation >>= fun _ =>
  .ok (tableJson records)

/-- The names of the schema documents that a table asks for. -/
def tableDocuments (config : Config) (path : String) (state : BatchState) : List String :=
  (Query.table (tableDocument path) (state.bound config.schemaFolder 0)).asked
      (state.reading config.schemaFolder) ++
    match tableSchema config path state with
    | .ok (schema, _) =>
      (inlining config path state schema).asked (state.reading config.schemaFolder)
    | .error _ => []

theorem tableSchema_congr
    (hread : ∀ name ∈ tableDocuments config path state,
      other.reading config.schemaFolder name = state.reading config.schemaFolder name) :
    tableSchema config path other = tableSchema config path state := by
  rw [tableSchema, tableSchema]
  exact (BatchState.answer_eq (Query.steady_table (tableDocument path)) 0 [] (Nat.le_refl _)
    (fun _ _ _ => trivial) fun name hname => hread name (List.mem_append_left _ hname)).1

theorem inlinedSchema_congr {found : Json × TypeTree}
    (hfound : tableSchema config path state = .ok found)
    (hread : ∀ name ∈ tableDocuments config path state,
      other.reading config.schemaFolder name = state.reading config.schemaFolder name) :
    inlinedSchema config path other found.1 = inlinedSchema config path state found.1 := by
  refine (BatchState.answer_eq (Query.steady_inline (tableDocument path) found.1) found.1.size
    [found.1] (by simp) (fun _ _ h => h found.1 (List.mem_singleton_self _)) fun name hname =>
    hread name (List.mem_append_right _ ?_)).1
  rw [hfound]
  exact hname

/-- A table is the same in states that read the same under the names that it asks for. -/
theorem tableValue_congr
    (hread : ∀ name ∈ tableDocuments config path state,
      other.reading config.schemaFolder name = state.reading config.schemaFolder name)
    (hfile : other.workspace.read? path = state.workspace.read? path) :
    tableValue config path other = tableValue config path state := by
  have hsheet : sheetOf config other.workspace path = sheetOf config state.workspace path := by
    rw [sheetOf, sheetOf, Workbook.ofFile, Workbook.ofFile, hfile]
  rw [tableValue, tableValue, tableSchema_congr hread, hsheet]
  cases hfound : tableSchema config path state with
  | error e => simp only [Except.mapError, bind, Except.bind]
  | ok found => simp only [Except.mapError, bind, Except.bind, inlinedSchema_congr hfound hread]

theorem tableDocuments_congr
    (hread : ∀ name ∈ tableDocuments config path state,
      other.reading config.schemaFolder name = state.reading config.schemaFolder name) :
    tableDocuments config path other ⊆ tableDocuments config path state := by
  rw [tableDocuments, tableDocuments, tableSchema_congr hread]
  refine List.append_subset.2 ⟨List.subset_append_of_subset_left _ ?_,
    List.subset_append_of_subset_right _ ?_⟩
  · exact (BatchState.answer_eq (Query.steady_table (tableDocument path)) 0 [] (Nat.le_refl _)
      (fun _ _ _ => trivial) fun name hname => hread name (List.mem_append_left _ hname)).2
  · cases hfound : tableSchema config path state with
    | error e => exact List.Subset.refl _
    | ok found =>
      refine (BatchState.answer_eq (Query.steady_inline (tableDocument path) found.1) found.1.size
        [found.1] (by simp) (fun _ _ h => h found.1 (List.mem_singleton_self _)) fun name hname =>
        hread name (List.mem_append_right _ ?_)).2
      rw [hfound]
      exact hname

/-- The schema of a table by the documents that are asked for. -/
theorem tableSchema_of_documents (documents : Entries Json) {schema inlined : Json}
    {type : TypeTree}
    (hschema : tableSchema config path (.ofDocuments documents) = .ok (schema, type))
    (hinlined : inlinedSchema config path (.ofDocuments documents) schema = .ok inlined)
    (hasked : tableDocuments config path (.ofDocuments documents) ⊆ documents.keys)
    (hread : ∀ entry ∈ documents, state.reading config.schemaFolder entry.1 = .ok entry.2) :
    tableSchema config path state = .ok (schema, type) ∧
      inlinedSchema config path state schema = .ok inlined ∧
      tableDocuments config path state ⊆ documents.keys := by
  have hsame : ∀ name ∈ tableDocuments config path (.ofDocuments documents),
      state.reading config.schemaFolder name =
        (BatchState.ofDocuments documents).reading config.schemaFolder name :=
    fun name hname => BatchState.reading_ofDocuments hread (hasked hname)
  exact ⟨(tableSchema_congr hsame).trans hschema,
    (inlinedSchema_congr hschema hsame).trans hinlined,
    List.Subset.trans (tableDocuments_congr hsame) hasked⟩

/-- What becomes of a table is given by what is read. -/
theorem yields_extract (state : BatchState) :
    Yields config.schemaFolder (extract config path) state (tableValue config path state) := by
  have htable : ∀ library : Library Session,
      (Query.table (tableDocument path) library.bound).answer library.read = (do
        let schema ← library.read (tableDocument path)
        return (schema, ← library.tableRoot (tableDocument path) schema)) := by
    intro library
    simp only [Query.table, Query.answer_bind, Query.answer_read, Query.answer_tableRoot,
      Query.answer_pure]
  have hinline : ∀ (schema : Json) (library : Library Session),
      ((Query.library library.bound).inline (tableDocument path) schema).answer library.read =
        library.inline (tableDocument path) schema :=
    fun schema library => Query.answer_inline _ schema
  refine (yields_withSchemas _ _ (Query.table (tableDocument path)) htable state).bind
    fun found known hfound hreading => ?_
  refine (yields_readSheet _).bind fun sheet known' _ hreading' => ?_
  refine (yields_ofExcept .table (extractTable sheet found.2) _).bind
    fun records known'' _ hreading'' => ?_
  have hsame := hreading''.trans (hreading'.trans hreading)
  have hinlined : inlinedSchema config path { state with known := known'' } found.1 =
      inlinedSchema config path state found.1 :=
    inlinedSchema_congr (mapError_eq_ok.1 hfound) fun name _ => congrFun hsame name
  have hyields := yields_withSchemas config.schemaFolder found.1.size
    (fun bound => (Query.library bound).inline (tableDocument path) found.1) (hinline found.1)
    { state with known := known'' }
  rw [← hinlined]
  refine hyields.bind fun inlined _ _ _ => ?_
  exact (yields_ofExcept .validation _ _).bind fun _ _ _ _ => yields_pure _ _

/-! ## Code -/

/-- The code for a schema document, by what is read. -/
def codeFile (config : Config) (document : String) (state : BatchState) :
    Except SchemaError (Option CodeFile) :=
  (Naming.documentFile ⟨config.codeLead⟩ (Query.library (state.bound config.schemaFolder 0))
    document).answer (state.reading config.schemaFolder)

/-- The names of the schema documents that the code for one asks for. -/
def codeDocuments (config : Config) (document : String) (state : BatchState) : List String :=
  (Naming.documentFile ⟨config.codeLead⟩ (Query.library (state.bound config.schemaFolder 0))
    document).asked (state.reading config.schemaFolder)

theorem codeFile_congr {document : String}
    (hread : ∀ name ∈ codeDocuments config document state,
      other.reading config.schemaFolder name = state.reading config.schemaFolder name) :
    codeFile config document other = codeFile config document state ∧
      codeDocuments config document other ⊆ codeDocuments config document state :=
  BatchState.answer_eq (Query.steady_documentFile ⟨config.codeLead⟩ document) 0 [] (Nat.le_refl _)
    (fun _ _ _ => trivial) hread

/-- The code for a document by the documents that it asks for. -/
theorem codeFile_of_documents {config : Config} {document : String} {state : BatchState}
    (documents : Entries Json) {result : Except SchemaError (Option CodeFile)}
    (hresult : codeFile config document (.ofDocuments documents) = result)
    (hasked : codeDocuments config document (.ofDocuments documents) ⊆ documents.keys)
    (hread : ∀ entry ∈ documents, state.reading config.schemaFolder entry.1 = .ok entry.2) :
    codeFile config document state = result ∧
      codeDocuments config document state ⊆ documents.keys := by
  have hsame : ∀ name ∈ codeDocuments config document (.ofDocuments documents),
      state.reading config.schemaFolder name =
        (BatchState.ofDocuments documents).reading config.schemaFolder name :=
    fun name hname => BatchState.reading_ofDocuments hread (hasked hname)
  obtain ⟨hfile, hdocuments⟩ := codeFile_congr hsame
  exact ⟨hfile.trans hresult, fun name hname => hasked (hdocuments hname)⟩

theorem yields_documentFile (config : Config) (document : String) (state : BatchState) :
    Yields config.schemaFolder
      (withSchemas config.schemaFolder 0 fun library =>
        Naming.documentFile ⟨config.codeLead⟩ library document) state
      ((codeFile config document state).mapError .schema) :=
  yields_withSchemas config.schemaFolder 0
    (fun bound => Naming.documentFile ⟨config.codeLead⟩ (Query.library bound) document)
    (fun _ => Query.answer_documentFile _ document) state

end Batch

/-! ## Steps that write -/

namespace Batch

/-- What is to be written: nothing, or a text in a file. -/
abbrev Draft := Option (String × String)

/-- Writes a draft. -/
def write : Draft → Batch (Option WriteStatus)
  | some (path, text) => some <$> update path text
  | none => return none

/-- What becomes of a draft and of the workspace. -/
def written (workspace : Workspace) :
    Except BatchError Draft → Except BatchError (Option WriteStatus) × Workspace
  | .error e => (.error e, workspace)
  | .ok none => (.ok none, workspace)
  | .ok (some (path, text)) =>
    (((workspace.update path text).1.mapError .output).map some, (workspace.update path text).2)

end Batch

/-- A step of a run before it writes. -/
structure Preparation (folder : String) where
  draft : Batch Batch.Draft
  /-- The draft, by what is read. -/
  value : BatchState → Except BatchError Batch.Draft
  /-- The names of the schema documents that are asked for. -/
  documents : BatchState → List String
  /-- The other files that are read. -/
  files : List String
  yields : ∀ state, Batch.Yields folder draft state (value state)
  congr : ∀ state other : BatchState,
    (∀ name ∈ documents state, other.reading folder name = state.reading folder name) →
    (∀ path ∈ files, other.workspace.read? path = state.workspace.read? path) →
    value other = value state

namespace Preparation

variable {folder : String}

/-- The paths of the files that are read. -/
def inputs (preparation : Preparation folder) (state : BatchState) : List String :=
  preparation.files ++ (preparation.documents state).map (Path.join folder)

/-- The whole step. -/
def step (preparation : Preparation folder) : Batch (Option WriteStatus) :=
  preparation.draft >>= Batch.write

/-- The step that writes the table of a workbook. -/
def table (config : Config) (path : String) : Preparation config.schemaFolder where
  draft := (fun value => some (Batch.tablePath config path, value.indented)) <$>
    Batch.extract config path
  value state := (Batch.tableValue config path state).map fun value =>
    some (Batch.tablePath config path, value.indented)
  documents := Batch.tableDocuments config path
  files := [path]
  yields state := (Batch.yields_extract state).map _
  congr state other hread hfiles := by
    rw [Batch.tableValue_congr hread (hfiles path (List.mem_singleton_self path))]

/-- The draft for code. -/
def codeDraft (folder : String) (file? : Option CodeFile) : Batch.Draft :=
  file?.map fun file => (Path.join folder file.name, file.render)

/-- The step that writes the code for a schema document. -/
def code (config : Config) (folder document : String) : Preparation config.schemaFolder where
  draft := codeDraft folder <$> Batch.withSchemas config.schemaFolder 0 fun library =>
    Naming.documentFile ⟨config.codeLead⟩ library document
  value state := ((Batch.codeFile config document state).mapError .schema).map (codeDraft folder)
  documents := Batch.codeDocuments config document
  files := []
  yields state := (Batch.yields_documentFile config document state).map (codeDraft folder)
  congr state other hread _ := by
    rw [(Batch.codeFile_congr hread).1]

theorem value_table (config : Config) (path : String) (state : BatchState) :
    (table config path).value state = (Batch.tableValue config path state).map fun value =>
      some (Batch.tablePath config path, value.indented) := rfl

theorem value_code (config : Config) (folder document : String) (state : BatchState) :
    (code config folder document).value state =
      ((Batch.codeFile config document state).mapError .schema).map (codeDraft folder) := rfl

theorem step_table (config : Config) (path : String) :
    (table config path).step = some <$> Batch.exportTable config path := by
  simp only [step, table, Batch.exportTable, bind_map_left, map_bind]
  rfl

theorem step_code (config : Config) (folder document : String) :
    (code config folder document).step = Batch.exportDocument config folder document := by
  simp only [step, code, Batch.exportDocument, bind_map_left]
  refine bind_congr fun file? => ?_
  cases file? with
  | none => rfl
  | some file => exact map_eq_pure_bind _ _

/-- **What a step does.** Nothing is read differently after it, but for what it wrote. -/
theorem run_step (preparation : Preparation folder) (state : BatchState) :
    ∃ known, preparation.step.run state =
        ((Batch.written state.workspace (preparation.value state)).1,
          ⟨(Batch.written state.workspace (preparation.value state)).2, known⟩) ∧
      known.reading (state.workspace.schema folder) = state.reading folder := by
  obtain ⟨known, hrun, hreading⟩ := preparation.yields state
  refine ⟨known, ?_, hreading⟩
  rw [step]
  cases hvalue : preparation.value state with
  | error e =>
    rw [hvalue] at hrun
    exact run_bind_of_error hrun
  | ok draft =>
    rw [hvalue] at hrun
    rw [run_bind_of_ok hrun]
    rcases draft with _ | ⟨path, text⟩
    · rfl
    · rw [Batch.write, map_eq_pure_bind, run_bind, Batch.update, ExceptT.run_mk, Batch.written]
      simp only
      rcases state.workspace.update path text with ⟨_ | _, _⟩ <;> rfl

end Preparation

end TableExport
