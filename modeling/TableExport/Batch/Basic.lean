import TableExport.Batch.Error
import TableExport.Code.Emission
import TableExport.Files.Search
import TableExport.Schema.Folder
import TableExport.Schema.Typing
import TableExport.Table.Extraction
import TableExport.Workbook.Basic

/-!
# Runs

A run reads every workbook of a folder and writes its table as JSON, or writes the code for every
schema document. A file that fails does not stop the others.

* `Batch.extract` is the checked table of a workbook.
* `Batch.exportTable` writes the table of a workbook, `Batch.exportData` those of all workbooks.
* `Batch.exportCode` writes the code of all schema documents.
-/

namespace TableExport

/-- What a run works on: the files, and the schema documents known so far. -/
structure BatchState where
  workspace : Workspace
  known : Documents := .empty

/-- Steps of a run. What a step changed stays changed when it fails. -/
abbrev Batch := ExceptT BatchError (StateM BatchState)

namespace Batch

/-- A step with a result that is known already. -/
def ofExcept {ε α : Type} (error : ε → BatchError) (result : Except ε α) : Batch α :=
  ExceptT.mk fun state => (result.mapError error, state)

/-- A step that works on the schema documents of a folder. Schemas at hand have `size` nodes. -/
def withSchemas {α : Type} (folder : String) (size : Nat)
    (step : Library Session → Session α) : Batch α :=
  ExceptT.mk fun state =>
    let library := state.workspace.library folder state.known size
    let (result, known) := (step library).run state.known
    (result.mapError .schema, { state with known })

/-- Gives a file a content, unless it has that content already. -/
def update (path text : String) : Batch WriteStatus :=
  ExceptT.mk fun state =>
    let (result, workspace) := state.workspace.update path text
    (result.mapError .output, { state with workspace })

/-- The files of a folder that fit a pattern. -/
def list (folder pattern : String) : Batch (List String) :=
  ExceptT.mk fun state =>
    match state.workspace.list? folder pattern with
    | some paths => (.ok paths, state)
    | none => (.error .badPattern, state)

/-- What follows the name of a table in the name of its schema document. -/
def schemaSuffix : String := ".schema.json"

/-- The workbooks of a run. -/
def workbooks (config : Config) : Batch (List String) :=
  list config.workbookFolder config.workbookPattern

/-- The names of the schema documents of a run. -/
def schemaDocuments (config : Config) : Batch (List String) :=
  return (← list config.schemaFolder ("*" ++ schemaSuffix)).filterMap Path.fileName?

/-- The sheet of a workbook that holds its table. -/
def readSheet (config : Config) (path : String) : Batch Sheet := do
  let workspace := (← get).workspace
  ofExcept .workbook do (← Workbook.ofFile workspace path).readSheet config.sheetName

/-- The table of a workbook, which fits its schema. -/
def extract (config : Config) (path : String) : Batch Json := do
  let table := Path.stem path
  let document := table ++ schemaSuffix
  let (schema, root) ← withSchemas config.schemaFolder 0 fun library => do
    let schema ← library.read document
    return (schema, ← library.tableRoot document schema)
  let sheet ← readSheet config path
  let value := tableJson (← ofExcept .table (extractTable sheet root))
  let schema ← withSchemas config.schemaFolder schema.size fun library =>
    library.inline document schema
  ofExcept .validation do (← Validator.ofSchema? table schema).validate value
  return value

/-- Writes the table of a workbook. -/
def exportTable (config : Config) (path : String) : Batch WriteStatus := do
  let value ← extract config path
  update (Path.join config.dataFolder (Path.stem path ++ ".json")) value.indented

/-- Writes the code for a schema document, if there is any. -/
def exportDocument (config : Config) (folder document : String) : Batch (Option WriteStatus) := do
  let file? ← withSchemas config.schemaFolder 0 fun library =>
    Naming.documentFile ⟨config.codeLead⟩ library document
  match file? with
  | some file => return some (← update (Path.join folder file.name) file.render)
  | none => return none

/-- The outcome of a step. An error that ends the run is not caught. -/
def attempt {α : Type} (step : Batch α) : Batch (Except BatchError α) :=
  ExceptT.mk fun state =>
    match step.run state with
    | (.error error, state) =>
      (if error.endsRun then .error error else .ok (.error error), state)
    | (.ok a, state) => (.ok (.ok a), state)

/-- Takes a step for each name and counts. -/
def tally (step : String → Batch (Option WriteStatus)) (summary : Summary) :
    List String → Batch Summary
  | [] => return summary
  | name :: rest => do tally step (summary.record (← attempt (step name))) rest

/-- Takes a step for each name. Fails when one of them fails. -/
def exportAll (step : String → Batch (Option WriteStatus)) (names : List String) :
    Batch Summary := do
  ofExcept .failed (← tally step {} names).result

/-- Writes the table of every workbook. -/
def exportData (config : Config) : Batch Summary := do
  exportAll (fun path => some <$> exportTable config path) (← workbooks config)

/-- Writes the code for every schema document. -/
def exportCode (config : Config) : Batch Summary := do
  let folder ← ofExcept .config config.requireCodeFolder
  exportAll (exportDocument config folder) (← schemaDocuments config)

end Batch

end TableExport
