import TableExport.Proofs.Batch.Again
import TableExport.Proofs.Files.Siblings
import TableExport.Proofs.Table.Faults
import TableExport.Proofs.Workbook.Books

/-!
# Tables of one run

All tables of a run share the known documents, and each writes a file while others are still to be
read. Tables that write apart from what the others read (`Batch.Separate`) still have the outcomes
that they have alone, in whatever order they are exported (`Batch.Separate.run`,
`Batch.exportData_alone`). A table whose schema lies beyond the folder that the tables go to, or a
file on a way through a folder that is not there, does depend on what is written before
(`Depot.not_alone`).
-/

namespace TableExport

namespace Workspace

variable {workspace later : Workspace} {path text : String}

theorem Meets.finds (h : workspace.Meets path later) (hfinds : workspace.Finds path) :
    later.Finds path := by
  intro hcontent
  rw [targetOf_congr h.grows.root, h.target] at hcontent
  exact h.grows.leadsTo (hfinds hcontent)

/-- After an update its file is found. -/
theorem Finds.update (h : workspace.Finds path) (text : String) :
    (workspace.update path text).2.Finds path := by
  have hupdates := updates_update workspace path text
  cases hresult : (workspace.update path text).1 with
  | ok status => exact fun _ => (read?_eq_some.1 (hupdates.done status hresult)).1
  | error e =>
    intro hcontent
    rw [targetOf_congr hupdates.grows.root, hupdates.kept _ (Or.inr (by rw [hresult]; exact nofun))]
      at hcontent
    exact hupdates.grows.leadsTo (h hcontent)

/-- **What is in a file after an update does not depend on what the update meets.** -/
theorem Meets.read?_update (h : workspace.Meets path later) (hfinds : workspace.Finds path)
    (text : String) :
    (later.update path text).2.read? path = (workspace.update path text).2.read? path := by
  have hupdates := updates_update workspace path text
  have hupdates' := updates_update later path text
  have hsame := update_congr h hfinds text
  cases hresult : (workspace.update path text).1 with
  | ok status =>
    rw [hupdates.done status hresult, hupdates'.done status (hsame.trans hresult)]
  | error e =>
    have hkept := hupdates.kept (workspace.targetOf path) (Or.inr (by rw [hresult]; exact nofun))
    have hkept' := hupdates'.kept (workspace.targetOf path)
      (Or.inr (by rw [hsame, hresult]; exact nofun))
    rw [read?_eq_of_finds hupdates.grows hkept hfinds,
      read?_eq_of_finds (h.grows.trans hupdates'.grows) (hkept'.trans h.target) hfinds]

end Workspace

namespace Batch

variable {folder : String} {plan : String → Preparation folder} {own : String → String}
  {start state : BatchState} {names : List String}

/-- Steps that do not matter to each other: each writes a file of its own, and these files lie in
one folder and are apart from what the other steps read. -/
structure Separate (plan : String → Preparation folder) (own : String → String)
    (start : BatchState) (names : List String) : Prop where
  owns : ∀ name ∈ names, ∀ path text,
    (plan name).value start = .ok (some (path, text)) → path = own name
  siblings : ∀ name ∈ names, ∀ other ∈ names, name ≠ other →
    start.workspace.Siblings (own name) (own other)
  apart : ∀ name ∈ names, ∀ other ∈ names, name ≠ other →
    ∀ input ∈ (plan name).inputs start, start.workspace.Apart (own other) input
  finds : ∀ name ∈ names, start.workspace.Finds (own name)

/-- What becomes of a step that is taken alone. -/
def alone (plan : String → Preparation folder) (start : BatchState) (name : String) :
    Except BatchError (Option WriteStatus) × Workspace :=
  written start.workspace ((plan name).value start)

/-- A draft has the same outcome as alone. -/
theorem written_congr {name : String} {workspace : Workspace} {draft : Except BatchError Draft}
    (howns : ∀ path text, draft = .ok (some (path, text)) → path = own name)
    (hmeets : start.workspace.Meets (own name) workspace)
    (hfinds : start.workspace.Finds (own name)) :
    (written workspace draft).1 = (written start.workspace draft).1 ∧
      (written workspace draft).2.read? (own name) =
        (written start.workspace draft).2.read? (own name) ∧
      (written workspace draft).2.Finds (own name) := by
  have hread := Workspace.read?_eq_of_finds hmeets.grows hmeets.target hfinds
  rcases draft with e | _ | ⟨path, text⟩
  · exact ⟨rfl, hread, hmeets.finds hfinds⟩
  · exact ⟨rfl, hread, hmeets.finds hfinds⟩
  · obtain rfl := howns path text rfl
    refine ⟨?_, hmeets.read?_update hfinds text, (hmeets.finds hfinds).update text⟩
    rw [written, written, Workspace.update_congr hmeets hfinds text]

/-- A draft that fails leaves its file. -/
theorem read?_written_of_error {workspace : Workspace} {draft : Except BatchError Draft}
    {path : String} {e : BatchError}
    (howns : ∀ output text, draft = .ok (some (output, text)) → output = path)
    (hfinds : workspace.Finds path) (h : (written workspace draft).1 = .error e) :
    (written workspace draft).2.read? path = workspace.read? path := by
  rcases draft with e | _ | ⟨output, text⟩
  · rfl
  · rfl
  · obtain rfl := howns output text rfl
    obtain ⟨_, hupdate, -⟩ := written_eq_error h
    have hupdates := Workspace.updates_update workspace output text
    refine Workspace.read?_eq_of_finds hupdates.grows (hupdates.kept _ (Or.inr ?_)) hfinds
    rw [hupdate]
    exact nofun

/-- **Separate steps have the outcomes that they have alone**, one after the other in any order.
Here some of them are still to come, and a state has been reached in which these are ready. -/
theorem Separate.run (h : Separate plan own start names)
    (hgoes : ∀ name ∈ names, GoesOn (alone plan start name).1) {pending : List String}
    (hsub : pending ⊆ names) (hnodup : pending.Nodup)
    (hready : ∀ name ∈ pending, (plan name).Ready start state ∧
      start.workspace.Meets (own name) state.workspace) :
    ∃ later, (outcomes (fun name => (plan name).step) pending).run state =
        (.ok (pending.map fun name => (alone plan start name).1), later) ∧
      state.workspace.Grows later.workspace ∧
      (∀ path, (∀ name ∈ pending, start.workspace.Siblings path (own name)) →
        later.workspace.contentAt? (start.workspace.targetOf path) =
          state.workspace.contentAt? (start.workspace.targetOf path)) ∧
      ∀ name ∈ pending,
        later.workspace.read? (own name) = (alone plan start name).2.read? (own name) := by
  induction pending generalizing state with
  | nil => exact ⟨state, rfl, .refl _, fun _ _ => rfl, nofun⟩
  | cons name rest ih =>
    obtain ⟨hname, hrest⟩ := List.cons_subset.1 hsub
    obtain ⟨hnew, hnodup⟩ := List.nodup_cons.1 hnodup
    have hne : ∀ other ∈ rest, other ≠ name := fun other hother heq => hnew (heq ▸ hother)
    obtain ⟨⟨hnameReady, hmeets⟩, hready⟩ := List.forall_mem_cons.1 hready
    obtain ⟨known, hrun, hreading⟩ := (plan name).run_step state
    rw [hnameReady.value_eq] at hrun
    have howns := h.owns name hname
    obtain ⟨houtcome, hread, hfinds⟩ := written_congr howns hmeets (h.finds name hname)
    rw [houtcome] at hrun
    -- the steps after this one are still ready
    have hnext : ∀ other ∈ rest,
        (plan other).Ready start ⟨(written state.workspace ((plan name).value start)).2, known⟩ ∧
          start.workspace.Meets (own other)
            (written state.workspace ((plan name).value start)).2 := by
      intro other hother
      have hother' := hrest hother
      obtain ⟨hotherReady, hotherMeets⟩ := hready other hother
      refine ⟨hotherReady.written (fun path text hdraft input hinput => ?_) hreading, ?_⟩
      · rw [howns path text hdraft]
        exact h.apart other hother' name hname (hne other hother) input hinput
      · rcases hdraft : (plan name).value start with e | _ | ⟨path, text⟩
        · exact hotherMeets
        · exact hotherMeets
        · obtain rfl := howns path text hdraft
          exact hotherMeets.update (h.siblings other hother' name hname (hne other hother)) text
    obtain ⟨later, hlater, hgrows, hframe, hown⟩ := ih hrest hnodup hnext
    refine ⟨later, run_outcomes_cons hrun (hgoes name hname) hlater,
      (grows_written _ _).trans hgrows, fun path hpath => ?_, List.forall_mem_cons.2 ⟨?_, hown⟩⟩
    · obtain ⟨hfirst, hothers⟩ := List.forall_mem_cons.1 hpath
      have htarget : ∀ path, state.workspace.targetOf path = start.workspace.targetOf path :=
        fun path => Workspace.targetOf_congr hmeets.grows.root
      rw [hframe path hothers, ← htarget]
      refine contentAt?_written fun other text hdraft => ?_
      rw [howns other text hdraft, htarget, htarget]
      exact hfirst.2
    · have hroot := (hmeets.grows.trans (grows_written state.workspace
        ((plan name).value start))).root
      refine (Workspace.read?_eq_of_finds hgrows ?_ hfinds).trans hread
      rw [Workspace.targetOf_congr hroot]
      exact hframe (own name) fun other hother =>
        h.siblings name hname other (hrest hother) (hne other hother).symm

/-! ## Tables -/

variable {config : Config} {path : String} {paths : List String}

/-- The paths of the files that a table is made from: its workbook and the schema documents that it
asks for. -/
def tableInputs (config : Config) (state : BatchState) (path : String) : List String :=
  (Preparation.table config path).inputs state

/-- The step of a run that exports a table. -/
def tableStep (config : Config) (path : String) : Batch (Option WriteStatus) :=
  some <$> exportTable config path

/-- A table that is exported alone has the outcome of its step, and leaves the same files. -/
theorem run_tableStep (config : Config) (start : BatchState) (path : String) :
    ((tableStep config path).run start).1 = (alone (Preparation.table config) start path).1 ∧
      ((tableStep config path).run start).2.workspace =
        (alone (Preparation.table config) start path).2 := by
  obtain ⟨known, hrun, -⟩ := (Preparation.table config path).run_step start
  rw [Preparation.step_table] at hrun
  rw [tableStep, hrun]
  exact ⟨rfl, rfl⟩

/-- A table writes its own file. -/
theorem eq_tablePath {output text : String}
    (h : (Preparation.table config path).value start = .ok (some (output, text))) :
    output = tablePath config path := by
  rw [Preparation.value_table] at h
  obtain ⟨value, -, hdraft⟩ := map_eq_ok.1 h
  exact (Prod.mk.inj (Option.some.inj hdraft)).1.symm

/-- Files for different tables are different files of one folder. -/
theorem siblings_tablePath (workspace : Workspace) {other : String}
    (h : Path.stem path ≠ Path.stem other) :
    workspace.Siblings (tablePath config path) (tablePath config other) := by
  have hjson : ∀ stem : String, '/' ∉ stem.toList → Path.IsName (stem ++ ".json") ∧
      '/' ∉ (stem ++ ".json").toList := by
    intro stem hslash
    have hlength : 5 ≤ (stem ++ ".json").toList.length := by simp
    refine ⟨⟨?_, ?_, ?_⟩, by simpa using hslash⟩ <;>
    · intro heq
      rw [heq] at hlength
      simp at hlength
  obtain ⟨hname, hslash⟩ := hjson _ (Path.not_mem_stem path)
  obtain ⟨hname', hslash'⟩ := hjson _ (Path.not_mem_stem other)
  exact workspace.siblings_join _ (fun heq => h (by simpa using heq)) hname hname' hslash hslash'

/-- A table whose cells can be shown does not fail for a date. -/
theorem tableValue_ne_overflow
    (hshows : ∀ sheet, sheetOf config start.workspace path = .ok sheet → sheet.Shows)
    (cause : DayOverflow) :
    tableValue config path start ≠ .error (.table (.overflow cause)) := by
  rw [tableValue]
  intro h
  rcases bind_eq_error.1 h with h | ⟨found, -, h⟩
  · obtain ⟨_, -, he⟩ := mapError_eq_error.1 h
    cases he
  rcases bind_eq_error.1 h with h | ⟨sheet, hsheet, h⟩
  · obtain ⟨_, -, he⟩ := mapError_eq_error.1 h
    cases he
  rcases bind_eq_error.1 h with h | ⟨records, -, h⟩
  · obtain ⟨_, hfails, he⟩ := mapError_eq_error.1 h
    cases he
    exact extractTable_ne_overflow (hshows sheet (mapError_eq_ok.1 hsheet)) found.2 cause hfails
  rcases bind_eq_error.1 h with h | ⟨inlined, -, h⟩
  · obtain ⟨_, -, he⟩ := mapError_eq_error.1 h
    cases he
  rcases bind_eq_error.1 h with h | ⟨_, -, h⟩
  · obtain ⟨_, -, he⟩ := mapError_eq_error.1 h
    cases he
  · cases h

/-- A table whose cells can be shown does not end the run. -/
theorem goesOn_table
    (hshows : ∀ sheet, sheetOf config start.workspace path = .ok sheet → sheet.Shows) :
    GoesOn (alone (Preparation.table config) start path).1 := by
  intro e he
  have hends : (∀ cause, e ≠ .table (.overflow cause)) → e.endsRun = false := by
    intro hne
    unfold BatchError.endsRun
    split
    · exact absurd rfl (hne _)
    · rfl
  refine hends fun cause hcause => ?_
  subst hcause
  rw [alone] at he
  rcases hvalue : (Preparation.table config path).value start with e | _ | ⟨output, text⟩
  · rw [hvalue] at he
    cases he
    rw [Preparation.value_table] at hvalue
    exact tableValue_ne_overflow hshows cause (map_eq_error.1 hvalue)
  · rw [hvalue] at he
    cases he
  · rw [hvalue] at he
    obtain ⟨_, -, houtput⟩ := written_eq_error he
    cases houtput

theorem separate_tables (hstems : (paths.map Path.stem).Nodup)
    (happart : ∀ path ∈ paths, ∀ other ∈ paths, path ≠ other →
      ∀ input ∈ tableInputs config start path,
        start.workspace.Apart (tablePath config other) input)
    (hfinds : ∀ path ∈ paths, start.workspace.Finds (tablePath config path)) :
    Separate (Preparation.table config) (tablePath config) start paths where
  owns := fun _ _ _ _ => eq_tablePath
  siblings := fun _ hpath _ hother hne => siblings_tablePath start.workspace fun hstem =>
    hne (List.inj_on_of_nodup_map hstems hpath hother hstem)
  apart := happart
  finds := hfinds

/-- A run takes the workbooks that it lists. -/
theorem run_exportData
    (hlist : start.workspace.list? config.workbookFolder config.workbookPattern = some paths) :
    (exportData config).run start = (exportAll (tableStep config) paths).run start := by
  rw [exportData, run_bind, workbooks, list, ExceptT.run_mk, hlist]
  rfl

/-- A table is always counted. -/
theorem alone_table_ne_none : (alone (Preparation.table config) start path).1 ≠ .ok none := by
  rw [alone, Preparation.value_table]
  rcases tableValue config path start with e | value
  · exact nofun
  · exact written_ne_none _ _ _

/-- **The tables of a run do not matter to each other.** Let all workbooks of a run have different
names and cells that can be shown, and let the file for each table be apart from what the other
tables are made from, and found under its path if it is there. Then the tables, exported in any
order, have the outcomes and the files that each of them has when it is exported alone; a table that
fails leaves its file; and the summary counts each table, and is a failure exactly if a table
fails. -/
theorem exportData_alone (config : Config) (start : BatchState) {paths : List String}
    (hlist : start.workspace.list? config.workbookFolder config.workbookPattern = some paths)
    (hstems : (paths.map Path.stem).Nodup)
    (hshows : ∀ path ∈ paths, ∀ sheet, sheetOf config start.workspace path = .ok sheet →
      sheet.Shows)
    (happart : ∀ path ∈ paths, ∀ other ∈ paths, path ≠ other →
      ∀ input ∈ tableInputs config start path,
        start.workspace.Apart (tablePath config other) input)
    (hfinds : ∀ path ∈ paths, start.workspace.Finds (tablePath config path)) :
    (exportData config).run start = (exportAll (tableStep config) paths).run start ∧
      ∀ order, order.Perm paths →
        let results := order.map fun path => ((tableStep config path).run start).1
        ∃ later, (outcomes (tableStep config) order).run start = (.ok results, later) ∧
          (∀ path ∈ order, later.workspace.read? (tablePath config path) =
            ((tableStep config path).run start).2.workspace.read? (tablePath config path)) ∧
          (∀ path ∈ order, ∀ e, ((tableStep config path).run start).1 = .error e →
            later.workspace.read? (tablePath config path) =
              start.workspace.read? (tablePath config path)) ∧
          (exportAll (tableStep config) order).run start =
            (if (count results).failed = 0 then .ok (count results)
              else .error (.failed
                ⟨(count results).failed, order.length % (Literal.maxCount + 1)⟩), later) ∧
          (count results).written + (count results).skipped + (count results).failed =
            order.length ∧
          ((count results).failed = 0 ↔
            ∀ path ∈ order, ∀ e, ((tableStep config path).run start).1 ≠ .error e) := by
  have hsteps : tableStep config = fun path => (Preparation.table config path).step :=
    funext fun path => (Preparation.step_table config path).symm
  constructor
  · exact run_exportData hlist
  · intro order horder
    have hsub : order ⊆ paths := fun path hpath => horder.mem_iff.1 hpath
    have hnodup : order.Nodup := horder.nodup_iff.2 (List.Nodup.of_map _ hstems)
    obtain ⟨later, hrun, -, -, hown⟩ := (separate_tables hstems happart hfinds).run
      (fun path hpath => goesOn_table (hshows path hpath)) hsub hnodup
      fun path _ => ⟨.refl start _, .refl start.workspace _⟩
    rw [← hsteps] at hrun
    simp only [← (run_tableStep config start _).1] at hrun
    have hcounted : ∀ result ∈ order.map fun path => ((tableStep config path).run start).1,
        result ≠ .ok none := by
      intro result hresult
      obtain ⟨path, -, rfl⟩ := List.mem_map.1 hresult
      rw [(run_tableStep config start path).1]
      exact alone_table_ne_none
    have hcount := count_spec hcounted
    rw [List.length_map, List.forall_mem_map] at hcount
    refine ⟨later, hrun, fun path hpath => ?_, fun path hpath e he => ?_, ?_, hcount.1, hcount.2⟩
    · rw [(run_tableStep config start path).2]
      exact hown path hpath
    · rw [(run_tableStep config start path).1] at he
      rw [hown path hpath]
      exact read?_written_of_error (fun _ _ => eq_tablePath) (hfinds path (hsub hpath)) he
    · rw [run_exportAll hrun, Summary.result, Summary.total, hcount.1]
      split_ifs <;> rfl

end Batch

/-! ## Depots with books -/

namespace Depot

open Workspace Batch Worksheet

/-- The sheet of a book, which has a label only. -/
def sheetText : String := "<row><c t=\"str\"><v>id</v></c></row>"

def label : Cell := ⟨1, 1, .inlineString, "id"⟩

/-- The sheet as it is written. -/
def rows : List RowForm :=
  [{ row := 1
     attributes := []
     cells := [
       { cell := label
         attributes := [("t", "str")]
         value := [.start (Markup.Tag.written "v" []), .text (some "id"),
           .stop (Markup.Name.ofString "v")] }] }]

theorem rowsWritten_rows : RowsWritten [] 0 rows := by
  have hone : 1 < Literal.maxCount := by decide
  have hname : (Markup.Tag.written "v" []).isNamed "v" = true :=
    Markup.isNamed_written.trans (by decide)
  have hplain : Markup.PlainEntries [("t", "str")] :=
    Markup.plainEntries_singleton ⟨by decide, by simp, by simp⟩
  exact ⟨⟨by decide, hone, Markup.plainEntries_nil, .inr (by decide), List.forall_mem_nil _,
    ⟨by decide, by decide, hone, hplain, .inr (by decide), by decide, rfl,
      List.forall_mem_nil _, .plain hname (.text "id" .nil), by decide⟩, trivial⟩, trivial⟩

/-- The book of a table without rows. -/
def book : ByteArray := Workbook.bookOf sheetText

/-- A book is read as its sheet. -/
theorem sheetOf_book {config : Config} {workspace : Workspace} {path : String}
    (hname : config.sheetName = "Data") (hpath : Workbook.isSupported path = true)
    (hread : workspace.read? path = some book) :
    sheetOf config workspace path = .ok (Sheet.ofCells path "Data" [label]) := by
  have hpack : Archive.Packable (Workbook.bookParts sheetText) :=
    ⟨by decide, by decide, by decide, by decide, by decide_cbv⟩
  have htext : Markup.read sheetText.toUTF8.toList true = rows.flatMap RowForm.events := by
    cbv
  obtain ⟨workbook, hbytes, hsheet⟩ :=
    Workbook.readSheet_bookOf hpack htext rowsWritten_rows (by decide) path
  have hfile : Workbook.ofFile workspace path = .ok workbook := by
    rw [Workbook.ofFile, if_pos hpath, hread]
    exact hbytes
  rw [sheetOf, hfile, hname]
  exact hsheet

/-- The configuration of a depot whose tables go to a folder. -/
def writingTo (folder : String) : Config := { config with dataFolder := folder }

/-- The path of a book. -/
def bookPath (name : String) : String := Path.join "/depot/books" (name ++ ".xlsx")

theorem bookPath_bin : bookPath "Bin" = "/depot/books/Bin.xlsx" := by decide

theorem bookPath_item : bookPath "Item" = "/depot/books/Item.xlsx" := by decide

theorem isSupported_bookPath {name : String} (hname : name ∈ Depot.tables) :
    Workbook.isSupported (bookPath name) = true := by
  rcases List.mem_pair.1 hname with rfl | rfl
  · rw [bookPath_bin]
    cbv
  · rw [bookPath_item]
    cbv

/-- A depot with a book for each table. -/
def stocked (item : String) (folders : List Location) (tables : List (Location × ByteArray)) :
    Workspace where
  root := "/depot"
  files := (["schemas", "Bin.schema.json"], idText.toUTF8) ::
    (["schemas", "Item.schema.json"], item.toUTF8) :: (["books", "Bin.xlsx"], book) ::
    (["books", "Item.xlsx"], book) :: tables
  folders := ["schemas"] :: ["books"] :: folders

/-- The file for a table without rows. -/
def emptyTable (name : String) : Location × ByteArray := (["out", name ++ ".json"], "[]".toUTF8)

variable {item : String} {folders : List Location} {tables : List (Location × ByteArray)}

/-- Paths in a depot with books, and their parts. -/
def bookPlaces : List (String × List String) :=
  [("/depot/schemas/Bin.schema.json", ["schemas", "Bin.schema.json"]),
    ("/depot/schemas/Item.schema.json", ["schemas", "Item.schema.json"]),
    ("/depot/schemas/../out/../schemas/Bin.schema.json",
      ["schemas", "..", "out", "..", "schemas", "Bin.schema.json"]),
    ("/depot/books", ["books"]), ("/depot/books/Bin.xlsx", ["books", "Bin.xlsx"]),
    ("/depot/books/Item.xlsx", ["books", "Item.xlsx"]), ("/depot/out", ["out"]),
    ("/depot/out/Bin.json", ["out", "Bin.json"]), ("/depot/out/Item.json", ["out", "Item.json"]),
    ("/depot/new/../out", ["new", "..", "out"]),
    ("/depot/new/../out/Bin.json", ["new", "..", "out", "Bin.json"]),
    ("/depot/new/../out/Item.json", ["new", "..", "out", "Item.json"])]

theorem partsOf?_stocked {path : String} (parts : List String) (h : (path, parts) ∈ bookPlaces) :
    (stocked item folders tables).partsOf? path = some parts := by
  have hall : ∀ place ∈ bookPlaces,
      Workspace.partsOf? { root := "/depot" } place.1 = some place.2 := by
    decide_cbv
  exact hall _ h

theorem read?_stocked :
    (stocked item folders tables).read? "/depot/schemas/Bin.schema.json" = some idText.toUTF8 ∧
      (stocked item folders tables).read? "/depot/schemas/Item.schema.json" = some item.toUTF8 ∧
      ∀ name ∈ Depot.tables, (stocked item folders tables).read? (bookPath name) = some book := by
  refine ⟨?_, ?_, fun name hname => ?_⟩
  · rw [read?, locate?, partsOf?_stocked ["schemas", "Bin.schema.json"] (by simp [bookPlaces])]
    simp [walk, stocked, isFolderAt, existsAt, contentAt?]
  · rw [read?, locate?, partsOf?_stocked ["schemas", "Item.schema.json"] (by simp [bookPlaces])]
    simp [walk, stocked, isFolderAt, existsAt, contentAt?]
  · rcases List.mem_pair.1 hname with rfl | rfl
    · rw [bookPath_bin, read?, locate?,
        partsOf?_stocked ["books", "Bin.xlsx"] (by simp [bookPlaces])]
      simp [walk, stocked, isFolderAt, existsAt, contentAt?]
    · rw [bookPath_item, read?, locate?,
        partsOf?_stocked ["books", "Item.xlsx"] (by simp [bookPlaces])]
      simp [walk, stocked, isFolderAt, existsAt, contentAt?]

/-- The books of a depot are found. -/
theorem list?_books {folder : String} (htables : ∀ file ∈ tables, file.1.head? ≠ some "books")
    (hfolders : ∀ location ∈ folders, location.length = 1) :
    (stocked item folders tables).list? (writingTo folder).workbookFolder
        (writingTo folder).workbookPattern = some (Depot.tables.map bookPath) := by
  let found := ["/depot/books/Bin.xlsx", "/depot/books/Item.xlsx"]
  have hlocate : (stocked item folders tables).locate? "/depot/books" = some ["books"] := by
    rw [locate?, partsOf?_stocked ["books"] (by simp [bookPlaces])]
    simp [walk, stocked, isFolderAt, existsAt]
  have hnames : (stocked item folders tables).namesIn ["books"] = ["Bin.xlsx", "Item.xlsx"] := by
    have hnone : ∀ location content, (location, content) ∈ tables → location.length = 2 →
        ["books"] <+: location → location = [] := by
      rintro location content hfile - ⟨rest, rfl⟩
      exact absurd rfl (htables _ hfile)
    have hnone' : ∀ location ∈ folders, location.length = 2 → ["books"] <+: location →
        location = [] := by
      intro location hlocation hlength
      rw [hfolders location hlocation] at hlength
      cases hlength
    simpa [namesIn, stocked] using ⟨hnone, hnone'⟩
  have hfiles : ∀ path ∈ found, ∃ content,
      (stocked item folders tables).read? path = some content := by
    obtain ⟨-, -, hbooks⟩ := @read?_stocked item folders tables
    intro path hpath
    rcases List.mem_pair.1 hpath with rfl | rfl
    · exact ⟨book, bookPath_bin ▸ hbooks "Bin" (by decide)⟩
    · exact ⟨book, bookPath_item ▸ hbooks "Item" (by decide)⟩
  have hstart : (stocked item folders tables).searchStart? (writingTo folder).workbookFolder =
      some ("/depot", [.name "books"]) := by
    simp [stocked, writingTo, config, searchStart?]
    rfl
  have hparts : SearchPart.ofPattern? "*" = some [.wildcard [.anyText]] := by rfl
  rw [Depot.tables, List.map_cons, List.map_cons, List.map_nil, bookPath_bin, bookPath_item]
  exact (list?_in_folder hparts hstart (by rfl) (by decide) (by rfl) hlocate rfl hnames (by decide)
    hfiles (by decide) (by decide_cbv)).1

/-! ### Tables without rows -/

def idType : TypeTree :=
  .composite { name := TypeTree.rootName, isArray := true} [.leaf { name := "id" } .string]

/-- A sheet with a label only has no rows. -/
theorem extractTable_label (path : String) :
    extractTable (Sheet.ofCells path "Data" [label]) idType = .ok [] := by
  have hlayout : Layout.ofSheet (Sheet.ofCells path "Data" [label]) idType.maxDepth =
      .ok ⟨TypeTree.rootName, 1, 1, [⟨"id", 1, 1, []⟩]⟩ := by cbv
  refine extractTable_eq_ok hlayout (by rfl) ?_
  rw [Extraction.readTable_of_lt (by decide)]
  cbv

theorem validate_nil (table : String) :
    (Validator.ofSchema? table idSchema >>= fun validator => validator.validate (tableJson [])) =
      .ok () := by
  have hschema : rowSetSchema idSchema = .obj [("type", .str "array"), ("items", idSchema)] := by
    rfl
  have hformed : Schema.isWellFormed (.obj [("type", .str "array"), ("items", idSchema)]) =
      true := by
    decide
  have hnone : violations (.obj [("type", .str "array"), ("items", idSchema)]) (.arr []) = [] :=
    List.isEmpty_iff.1 (by decide)
  have hjson : tableJson [] = .arr [] := by rfl
  rw [Validator.ofSchema?, hschema]
  simp only [hformed, if_true, bind, Except.bind, Validator.validate, hjson, hnone]

variable {folder name : String} {state : BatchState} {schema : Json}

/-- The table of a book, by the documents that it asks for. -/
theorem value_book (hname : name ∈ Depot.tables) (documents : Entries Json)
    (hschema : tableSchema (writingTo folder) (bookPath name) (.ofDocuments documents) =
      .ok (schema, idType))
    (hinlined : inlinedSchema (writingTo folder) (bookPath name) (.ofDocuments documents) schema =
      .ok idSchema)
    (hasked : tableDocuments (writingTo folder) (bookPath name) (.ofDocuments documents) ⊆
      documents.keys)
    (hread : ∀ entry ∈ documents, state.reading config.schemaFolder entry.1 = .ok entry.2)
    (hbook : state.workspace.read? (bookPath name) = some book) :
    (Preparation.table (writingTo folder) (bookPath name)).value state =
        .ok (some (tablePath (writingTo folder) (bookPath name), "[]")) ∧
      tableDocuments (writingTo folder) (bookPath name) state ⊆ documents.keys := by
  obtain ⟨hschema, hinlined, hasked⟩ :=
    tableSchema_of_documents documents hschema hinlined hasked hread
  have hsheet : sheetOf (writingTo folder) state.workspace (bookPath name) = _ :=
    sheetOf_book rfl (isSupported_bookPath hname) hbook
  have hvalue : tableValue (writingTo folder) (bookPath name) state = .ok (tableJson []) := by
    rw [tableValue, hschema, hsheet]
    simp only [Except.mapError, bind, Except.bind, extractTable_label, hinlined]
    exact congrArg (fun result => (Except.mapError BatchError.validation result).bind fun _ =>
      Except.ok (tableJson [])) (validate_nil (Path.stem (bookPath name)))
  have hjson : tableJson [] = .arr [] := by rfl
  have htext : (tableJson []).indented = "[]" := by rw [hjson, Json.indented, Json.indentedAt]
  refine ⟨?_, hasked⟩
  rw [Preparation.value_table, hvalue, Except.map, htext]

/-- The table of a book whose schema has a field. -/
theorem value_plain (hname : name ∈ Depot.tables)
    (hread : state.reading config.schemaFolder (name ++ schemaSuffix) = .ok idSchema)
    (hbook : state.workspace.read? (bookPath name) = some book) :
    (Preparation.table (writingTo folder) (bookPath name)).value state =
        .ok (some (tablePath (writingTo folder) (bookPath name), "[]")) ∧
      tableDocuments (writingTo folder) (bookPath name) state ⊆ [name ++ schemaSuffix] := by
  have hasked : ∀ name ∈ Depot.tables, tableDocuments config (bookPath name)
      (.ofDocuments [(name ++ schemaSuffix, idSchema)]) ⊆ [name ++ schemaSuffix] := by
    decide
  rcases List.mem_pair.1 hname with rfl | rfl
  · exact value_book hname [("Bin" ++ schemaSuffix, idSchema)] (by rfl) (by rfl)
      (hasked _ hname) (List.forall_mem_singleton.2 hread) hbook
  · exact value_book hname [("Item" ++ schemaSuffix, idSchema)] (by rfl) (by rfl)
      (hasked _ hname) (List.forall_mem_singleton.2 hread) hbook

/-- What is read under the name of a schema. -/
theorem reading_stocked {document : Json} (hdocument : Json.read? item = some document)
    (hshape : Shape.check ("Item" ++ schemaSuffix) document = .ok ()) :
    BatchState.reading ⟨stocked item folders tables, .empty⟩ config.schemaFolder
        ("Bin" ++ schemaSuffix) = .ok idSchema ∧
      BatchState.reading ⟨stocked item folders tables, .empty⟩ config.schemaFolder
        ("Item" ++ schemaSuffix) = .ok document := by
  obtain ⟨hbin, hitem, -⟩ := @read?_stocked item folders tables
  exact ⟨BatchState.reading_of_text rfl hbin read?_idText (by decide),
    BatchState.reading_of_text rfl hitem hdocument hshape⟩

/-! ### Updates -/

/-- Ways to the folder for tables, with their parts. -/
def routes : List (String × List String) :=
  [("/depot/out", ["out"]), ("/depot/new/../out", ["new", "..", "out"])]

variable {folders' : List Location} {tables' : List (Location × ByteArray)} {parts : List String}

/-- The path of the file for a table, and its parts. -/
theorem tablePath_parts (hroute : (folder, parts) ∈ routes) (hname : name ∈ Depot.tables) :
    Path.parent? (tablePath (writingTo folder) (bookPath name)) = some folder ∧
      (stocked item folders tables).partsOf? folder = some parts ∧
      (stocked item folders tables).partsOf? (tablePath (writingTo folder) (bookPath name)) =
        some (parts ++ [name ++ ".json"]) ∧
      Path.target [] parts = ["out"] := by
  have hall : ∀ route ∈ routes, ∀ name ∈ Depot.tables,
      Path.parent? (tablePath (writingTo route.1) (bookPath name)) = some route.1 ∧
        Workspace.partsOf? { root := "/depot" } route.1 = some route.2 ∧
        Workspace.partsOf? { root := "/depot" } (tablePath (writingTo route.1) (bookPath name)) =
          some (route.2 ++ [name ++ ".json"]) ∧
        Path.target [] route.2 = ["out"] := by
    decide
  obtain ⟨hparent, hfolder, hfile, htarget⟩ := hall (folder, parts) hroute name hname
  have hroot : (stocked item folders tables).root = ({ root := "/depot" } : Workspace).root := rfl
  exact ⟨hparent, (partsOf?_congr hroot).trans hfolder, (partsOf?_congr hroot).trans hfile,
    htarget⟩

/-- A table without rows is written into its folder. -/
theorem update_table (hroute : (folder, parts) ∈ routes) (hname : name ∈ Depot.tables)
    (hread : (stocked item folders tables).read?
      (tablePath (writingTo folder) (bookPath name)) ≠ some "[]".toUTF8)
    (hmade : (stocked item folders tables).makeAlong [] parts =
      (stocked item folders' tables, true))
    (hleads : (stocked item folders' tables).Leads [] parts)
    (hfolder : (stocked item folders' tables).isFolderAt ["out"] = true ∧
      (stocked item folders' tables).isFolderAt ["out", name ++ ".json"] = false)
    (hput : (stocked item folders' tables).putAt ["out", name ++ ".json"] "[]".toUTF8 =
      stocked item folders' tables') :
    (stocked item folders tables).update (tablePath (writingTo folder) (bookPath name)) "[]" =
      (.ok .written, stocked item folders' tables') := by
  obtain ⟨hparent, hparts, -, -⟩ := @tablePath_parts item folders tables _ _ _ hroute hname
  obtain ⟨-, -, hfile, htarget⟩ := @tablePath_parts item folders' tables _ _ _ hroute hname
  have hnames : ∀ name ∈ Depot.tables,
      Path.IsName (name ++ ".json") ∧ isValidName (name ++ ".json") = true := by decide
  have hmade' : (stocked item folders tables).makeParent
      (tablePath (writingTo folder) (bookPath name)) = (stocked item folders' tables, true) := by
    rw [makeParent, hparent]
    simp only [makeFolders, hparts, hmade]
  refine update_eq_written hread hmade' ?_
  rw [write?_of_parts hfile, htarget, if_pos, List.singleton_append, hput]
  exact ⟨(hnames name hname).1, (hnames name hname).2, hleads, hfolder⟩

/-- The first table makes the folder for the tables, and the next one finds it. -/
theorem update_out :
    (stocked item [] []).update (tablePath (writingTo "/depot/out") (bookPath "Bin")) "[]" =
      (.ok .written, stocked item [["out"]] [emptyTable "Bin"]) ∧
    (stocked item [["out"]] [emptyTable "Bin"]).update
        (tablePath (writingTo "/depot/out") (bookPath "Item")) "[]" =
      (.ok .written, stocked item [["out"]] [emptyTable "Bin", emptyTable "Item"]) := by
  have hroute : ("/depot/out", ["out"]) ∈ routes := by simp [routes]
  have hvalid : isValidName "out" = true := by decide
  constructor
  · refine update_table hroute (by decide) ?_ ?_ ?_ ?_ ?_
    · rw [read?, locate?, (tablePath_parts hroute (by decide)).2.2.1]
      simp [walk, stocked, isFolderAt, existsAt, contentAt?]
    · simp [makeAlong, isFolderAt, stocked, contentAt?, hvalid]
    · simp [Leads, Passes, stocked, existsAt, isFolderAt, Path.descend]
    · simp [stocked, isFolderAt]
    · simp [putAt, stocked, contentAt?, emptyTable]
  · refine update_table hroute (by decide) ?_ ?_ ?_ ?_ ?_
    · rw [read?, locate?, (tablePath_parts hroute (by decide)).2.2.1]
      simp [walk, stocked, isFolderAt, existsAt, contentAt?, emptyTable]
    · simp [makeAlong, isFolderAt, stocked]
    · simp [Leads, Passes, stocked, existsAt, isFolderAt, Path.descend]
    · simp [stocked, isFolderAt]
    · simp [putAt, stocked, contentAt?, emptyTable]

/-- On a way through a folder that is not there, a table is not found before the folder is made. -/
theorem update_new :
    (stocked item [["out"]] [emptyTable "Item"]).update
        (tablePath (writingTo "/depot/new/../out") (bookPath "Item")) "[]" =
      (.ok .written, stocked item [["out"], ["new"]] [emptyTable "Item"]) ∧
    (stocked item [["out"]] [emptyTable "Item"]).update
        (tablePath (writingTo "/depot/new/../out") (bookPath "Bin")) "[]" =
      (.ok .written, stocked item [["out"], ["new"]] [emptyTable "Item", emptyTable "Bin"]) ∧
    (stocked item [["out"], ["new"]] [emptyTable "Item", emptyTable "Bin"]).update
        (tablePath (writingTo "/depot/new/../out") (bookPath "Item")) "[]" =
      (.ok .skipped, stocked item [["out"], ["new"]] [emptyTable "Item", emptyTable "Bin"]) := by
  have hroute : ("/depot/new/../out", ["new", "..", "out"]) ∈ routes := by simp [routes]
  have hvalid : isValidName "new" = true := by decide
  refine ⟨?_, ?_, ?_⟩
  · refine update_table hroute (by decide) ?_ ?_ ?_ ?_ ?_
    · rw [read?, locate?, (tablePath_parts hroute (by decide)).2.2.1]
      simp [walk, stocked, isFolderAt, existsAt, contentAt?, emptyTable]
    · simp [makeAlong, isFolderAt, stocked, contentAt?, hvalid, emptyTable]
    · simp [Leads, Passes, stocked, existsAt, isFolderAt, Path.descend]
    · simp [stocked, isFolderAt]
    · simp [putAt, stocked, contentAt?, emptyTable]
  · refine update_table hroute (by decide) ?_ ?_ ?_ ?_ ?_
    · rw [read?, locate?, (tablePath_parts hroute (by decide)).2.2.1]
      simp [walk, stocked, isFolderAt, existsAt, contentAt?, emptyTable]
    · simp [makeAlong, isFolderAt, stocked, contentAt?, hvalid, emptyTable]
    · simp [Leads, Passes, stocked, existsAt, isFolderAt, Path.descend]
    · simp [stocked, isFolderAt]
    · simp [putAt, stocked, contentAt?, emptyTable]
  · have hpath : tablePath (writingTo "/depot/new/../out") (bookPath "Item") ≠ "" := by
      decide
    refine update_eq_skipped ?_
    rw [read?, locate?, (tablePath_parts hroute (by decide)).2.2.1]
    simp [walk, stocked, isFolderAt, existsAt, contentAt?, emptyTable, hpath]

/-! ### Runs of two tables -/

/-- A run over the books of a depot, of which the second is read with the documents that are known
then. -/
theorem run_books {start : BatchState} {between after : Workspace} {first second : WriteStatus}
    (hlist : start.workspace.list? (writingTo folder).workbookFolder
      (writingTo folder).workbookPattern = some (Depot.tables.map bookPath))
    (hbin : alone (Preparation.table (writingTo folder)) start (bookPath "Bin") =
      (.ok (some first), between))
    (hitem : ∀ known : Documents,
      known.reading (start.workspace.schema config.schemaFolder) =
        start.reading config.schemaFolder →
      written between ((Preparation.table (writingTo folder) (bookPath "Item")).value
        ⟨between, known⟩) = (.ok (some second), after)) :
    ∃ later, (exportData (writingTo folder)).run start =
      (.ok (count [.ok (some first), .ok (some second)]), later) := by
  obtain ⟨known, hrun, hreading⟩ :=
    (Preparation.table (writingTo folder) (bookPath "Bin")).run_step start
  rw [show written start.workspace _ = _ from hbin] at hrun
  obtain ⟨known', hrun', -⟩ :=
    (Preparation.table (writingTo folder) (bookPath "Item")).run_step ⟨between, known⟩
  rw [hitem known hreading] at hrun'
  have hall : (outcomes (tableStep (writingTo folder)) (Depot.tables.map bookPath)).run start =
      (.ok [.ok (some first), .ok (some second)], ⟨after, known'⟩) := by
    rw [Preparation.step_table] at hrun hrun'
    exact run_outcomes_cons hrun (goesOn_ok _) (run_outcomes_cons hrun' (goesOn_ok _) rfl)
  refine ⟨⟨after, known'⟩, ?_⟩
  have hcount : (count [.ok (some first), .ok (some second)]).failed = 0 := by
    cases first <;> cases second <;> rfl
  rw [run_exportData hlist]
  refine (run_exportAll hall).trans ?_
  rw [Summary.result, if_pos hcount]
  rfl

/-- The schema of the items leads through the folder for the tables. -/
def outDocument : String := "../out/../schemas/Bin.schema.json"

def outSchema : Json := .obj [("$ref", .str outDocument)]

def outText : String := "\x7b\"$ref\":\"../out/../schemas/Bin.schema.json\"\x7d"

theorem read?_outText : Json.read? outText = some outSchema := by cbv

/-- A document that could not be read is looked for again. -/
theorem reading_of_error {known : Documents} {load : String → Except SchemaError Json}
    {e : SchemaError} (h : known.reading load name = .error e)
    (load' : String → Except SchemaError Json) : known.reading load' name = load' name := by
  refine Documents.reading_of_unknown ?_
  cases hget : known.get? name with
  | none => rfl
  | some document =>
    rw [Documents.reading_of_get? hget] at h
    cases h

/-- Where the schema of the items leads, before the folder is there and after that. -/
theorem schema_out :
    (stocked item [] []).schema config.schemaFolder outDocument =
        .error (.unreadable outDocument) ∧
      (stocked item [["out"]] tables).schema config.schemaFolder outDocument = .ok idSchema := by
  have hpath : Path.join config.schemaFolder outDocument =
      "/depot/schemas/../out/../schemas/Bin.schema.json" := by decide
  have hparts := fun folders tables => @partsOf?_stocked item folders tables
    "/depot/schemas/../out/../schemas/Bin.schema.json"
    ["schemas", "..", "out", "..", "schemas", "Bin.schema.json"] (by simp [bookPlaces])
  constructor
  · have hread : (stocked item [] []).read? (Path.join config.schemaFolder outDocument) =
        none := by
      rw [hpath, read?, locate?, hparts]
      simp [walk, stocked, isFolderAt, existsAt, contentAt?]
    rw [Workspace.schema, readText?, hread]
    rfl
  · have hread : (stocked item [["out"]] tables).read?
        (Path.join config.schemaFolder outDocument) = some idText.toUTF8 := by
      rw [hpath, read?, locate?, hparts]
      simp [walk, stocked, isFolderAt, existsAt, contentAt?]
    rw [Workspace.schema, readText?, hread, Option.bind_some, BatchState.fromUTF8?_toUTF8,
      Option.bind_some, read?_idText]
    rfl

/-- What a session reads under the name of a schema does not change between depots. -/
theorem reading_later {item : String} {folders folders' : List Location}
    {tables tables' : List (Location × ByteArray)} {known : Documents}
    (hknown : known.reading ((stocked item folders tables).schema config.schemaFolder) =
      BatchState.reading ⟨stocked item folders tables, .empty⟩ config.schemaFolder)
    (hname : name ∈ Depot.tables) :
    BatchState.reading ⟨stocked item folders' tables', known⟩ config.schemaFolder
        (name ++ schemaSuffix) =
      BatchState.reading ⟨stocked item folders tables, .empty⟩ config.schemaFolder
        (name ++ schemaSuffix) := by
  let path := Path.join config.schemaFolder (name ++ schemaSuffix)
  have hread : (stocked item folders' tables').read? path =
      (stocked item folders tables).read? path := by
    obtain ⟨hbin, hitem, -⟩ := @read?_stocked item folders tables
    obtain ⟨hbin', hitem', -⟩ := @read?_stocked item folders' tables'
    rcases List.mem_pair.1 hname with rfl | rfl
    · exact hbin'.trans hbin.symm
    · exact hitem'.trans hitem.symm
  rw [← hknown, BatchState.reading_def, Documents.reading, Documents.reading, Workspace.schema,
    Workspace.schema, readText?, readText?, hread]

/-- The table of the items cannot be made alone. -/
theorem value_item_alone :
    (Preparation.table (writingTo "/depot/out") (bookPath "Item")).value
      ⟨stocked outText [] [], .empty⟩ = .error (.schema (.unreadable outDocument)) := by
  let known : Entries Json := [("Item" ++ schemaSuffix, outSchema)]
  have hasked : tableDocuments config (bookPath "Item") (.ofDocuments known) ⊆
      ["Item" ++ schemaSuffix, outDocument] := by decide +kernel
  have hschema : tableSchema (writingTo "/depot/out") (bookPath "Item")
      ⟨stocked outText [] [], .empty⟩ = .error (.unreadable outDocument) := by
    have hnone : tableSchema (writingTo "/depot/out") (bookPath "Item") (.ofDocuments known) =
        .error (.unreadable outDocument) := by rfl
    refine (tableSchema_congr fun name hname => ?_).trans hnone
    rcases List.mem_pair.1 (hasked hname) with rfl | rfl
    · exact (@reading_stocked outText [] [] outSchema read?_outText (by decide)).2
    · exact (@schema_out outText []).1
  rw [Preparation.value_table, tableValue, hschema]
  rfl

/-- The table of the items can be made once the folder is there. -/
theorem value_item_later {known : Documents}
    (hknown : known.reading ((stocked outText [] []).schema config.schemaFolder) =
      BatchState.reading ⟨stocked outText [] [], .empty⟩ config.schemaFolder) :
    (Preparation.table (writingTo "/depot/out") (bookPath "Item")).value
      ⟨stocked outText [["out"]] [emptyTable "Bin"], known⟩ =
        .ok (some (tablePath (writingTo "/depot/out") (bookPath "Item"), "[]")) := by
  have hitem := (@reading_stocked outText [] [] outSchema read?_outText (by decide)).2
  have hout : known.reading ((stocked outText [] []).schema config.schemaFolder) outDocument =
      .error (.unreadable outDocument) :=
    (congrFun hknown outDocument).trans (@schema_out outText []).1
  have hasked : tableDocuments config (bookPath "Item") (.ofDocuments
      [("Item" ++ schemaSuffix, outSchema), (outDocument, idSchema)]) ⊆
        ["Item" ++ schemaSuffix, outDocument] := by decide +kernel
  refine (@value_book "/depot/out" "Item" ⟨stocked outText [["out"]] [emptyTable "Bin"], known⟩
    outSchema (by decide) [("Item" ++ schemaSuffix, outSchema), (outDocument, idSchema)] (by rfl)
    (by rfl) hasked (List.forall_mem_cons.2 ⟨(reading_later hknown (by decide)).trans hitem,
      List.forall_mem_singleton.2 ?_⟩) (read?_stocked.2.2 "Item" (by decide))).1
  exact (reading_of_error hout _).trans (@schema_out outText [emptyTable "Bin"]).2

/-! ### Tables that do not matter to each other -/

/-- A depot whose folder for tables is not there yet. -/
def plain : BatchState := ⟨stocked idText [] [], .empty⟩

/-- All cells of a book can be shown. -/
theorem shows_book (hname : name ∈ Depot.tables)
    (hbook : state.workspace.read? (bookPath name) = some book) :
    ∀ sheet, sheetOf (writingTo folder) state.workspace (bookPath name) = .ok sheet →
      sheet.Shows := by
  intro sheet hsheet row column cell hcell
  rw [sheetOf_book rfl (isSupported_bookPath hname) hbook] at hsheet
  cases hsheet
  rw [Sheet.get?_ofCells] at hcell
  obtain rfl : cell = label := List.mem_singleton.1 (List.mem_of_find?_eq_some hcell)
  exact ⟨"id", rfl⟩

/-- The files for tables are apart from what the tables are made from. -/
theorem apart_plain {other : String} (hname : name ∈ Depot.tables)
    (hother : other ∈ Depot.tables) :
    ∀ input ∈ tableInputs (writingTo "/depot/out") plain (bookPath name),
      plain.workspace.Apart (tablePath (writingTo "/depot/out") (bookPath other)) input := by
  let folders : Workspace := { root := "/depot", folders := [["schemas"], ["books"]] }
  have hall : ∀ name ∈ Depot.tables, ∀ other ∈ Depot.tables,
      ∀ input ∈ [bookPath name, Path.join config.schemaFolder (name ++ schemaSuffix)],
        folders.Apart (tablePath (writingTo "/depot/out") (bookPath other)) input := by
    decide
  have hgrows : folders.Grows plain.workspace :=
    ⟨rfl, fun _ h => h, fun _ h => absurd rfl h, fun _ h => Or.inl h⟩
  have hread : plain.reading config.schemaFolder (name ++ schemaSuffix) = .ok idSchema := by
    obtain ⟨hbin, hitem⟩ := @reading_stocked idText [] [] idSchema read?_idText (by decide)
    rcases List.mem_pair.1 hname with rfl | rfl
    exacts [hbin, hitem]
  have hasked := (@value_plain "/depot/out" name plain hname hread
    (read?_stocked.2.2 name hname)).2
  intro input hinput
  refine (hall name hname other hother input ?_).mono hgrows
  rcases List.mem_append.1 hinput with hinput | hinput
  · exact List.mem_cons.2 (Or.inl (List.mem_singleton.1 hinput))
  · obtain ⟨document, hdocument, rfl⟩ := List.mem_map.1 hinput
    rw [List.mem_singleton.1 (hasked hdocument)]
    exact List.mem_cons_of_mem _ List.mem_cons_self

/-- The tables of a depot have the outcomes that they have alone, also in the other order. -/
theorem exportData_alone_plain :
    plain.workspace.list? (writingTo "/depot/out").workbookFolder
        (writingTo "/depot/out").workbookPattern = some (Depot.tables.map bookPath) ∧
    ((Depot.tables.map bookPath).map Path.stem).Nodup ∧
    (∀ path ∈ Depot.tables.map bookPath, ∀ sheet,
      sheetOf (writingTo "/depot/out") plain.workspace path = .ok sheet → sheet.Shows) ∧
    (∀ path ∈ Depot.tables.map bookPath, ∀ other ∈ Depot.tables.map bookPath, path ≠ other →
      ∀ input ∈ tableInputs (writingTo "/depot/out") plain path,
        plain.workspace.Apart (tablePath (writingTo "/depot/out") other) input) ∧
    (∀ path ∈ Depot.tables.map bookPath,
      plain.workspace.Finds (tablePath (writingTo "/depot/out") path)) ∧
    ∃ later, (outcomes (tableStep (writingTo "/depot/out"))
        [bookPath "Item", bookPath "Bin"]).run plain =
      (.ok [((tableStep (writingTo "/depot/out") (bookPath "Item")).run plain).1,
        ((tableStep (writingTo "/depot/out") (bookPath "Bin")).run plain).1], later) := by
  have hlist := @list?_books idText [] [] "/depot/out" (List.forall_mem_nil _)
    (List.forall_mem_nil _)
  have hstems : ((Depot.tables.map bookPath).map Path.stem).Nodup := by decide
  have hshows : ∀ path ∈ Depot.tables.map bookPath, ∀ sheet,
      sheetOf (writingTo "/depot/out") plain.workspace path = .ok sheet → sheet.Shows := by
    refine List.forall_mem_map.2 fun name hname => ?_
    have hbook : plain.workspace.read? (bookPath name) = some book := read?_stocked.2.2 name hname
    exact shows_book hname hbook
  have happart : ∀ path ∈ Depot.tables.map bookPath, ∀ other ∈ Depot.tables.map bookPath,
      path ≠ other → ∀ input ∈ tableInputs (writingTo "/depot/out") plain path,
        plain.workspace.Apart (tablePath (writingTo "/depot/out") other) input :=
    List.forall_mem_map.2 fun name hname => List.forall_mem_map.2 fun other hother _ =>
      apart_plain hname hother
  have hfinds : ∀ path ∈ Depot.tables.map bookPath,
      plain.workspace.Finds (tablePath (writingTo "/depot/out") path) := by
    refine List.forall_mem_map.2 fun name hname hcontent => absurd ?_ hcontent
    have hroute : ("/depot/out", ["out"]) ∈ routes := by simp [routes]
    have hname' : ∀ name ∈ Depot.tables, Path.IsName (name ++ ".json") := by decide
    obtain ⟨-, -, hparts, htarget⟩ := @tablePath_parts idText [] [] _ _ _ hroute hname
    rw [plain, targetOf_of_parts hparts (hname' name hname), htarget]
    simp [contentAt?, stocked]
  refine ⟨hlist, hstems, hshows, happart, hfinds, ?_⟩
  obtain ⟨-, horders⟩ :=
    exportData_alone (writingTo "/depot/out") plain hlist hstems hshows happart hfinds
  obtain ⟨later, hrun, -⟩ := horders [bookPath "Item", bookPath "Bin"] (List.Perm.swap _ _ _)
  exact ⟨later, hrun⟩

/-- A depot in which the schema of the items leads through the folder for the tables, which is not
there. -/
def through : BatchState := ⟨stocked outText [] [], .empty⟩

/-- A depot with the table of the items, and a way to it through a folder that is not there. -/
def detour : BatchState := ⟨stocked idText [["out"]] [emptyTable "Item"], .empty⟩

/-- What becomes of a table alone. -/
theorem run_tableStep_eq {draft : Except BatchError Draft}
    (hvalue : (Preparation.table (writingTo folder) (bookPath name)).value state = draft) :
    ((tableStep (writingTo folder) (bookPath name)).run state).1 =
      (written state.workspace draft).1 := by
  rw [(run_tableStep _ state _).1, alone, hvalue]

/-- The table of the items fails alone, and is written after a table that makes the folder. -/
theorem run_through :
    through.workspace.list? (writingTo "/depot/out").workbookFolder
        (writingTo "/depot/out").workbookPattern = some (Depot.tables.map bookPath) ∧
      ((tableStep (writingTo "/depot/out") (bookPath "Bin")).run through).1 =
        .ok (some .written) ∧
      ((tableStep (writingTo "/depot/out") (bookPath "Item")).run through).1 =
        .error (.schema (.unreadable outDocument)) ∧
      ∃ later, (exportData (writingTo "/depot/out")).run through = (.ok ⟨2, 0, 0⟩, later) := by
  have hlist := @list?_books outText [] [] "/depot/out" (List.forall_mem_nil _)
    (List.forall_mem_nil _)
  have hbin := (@value_plain "/depot/out" "Bin" through (by decide)
    (reading_stocked read?_outText (by decide)).1 (read?_stocked.2.2 "Bin" (by decide))).1
  obtain ⟨hfirst, hsecond⟩ := @update_out outText
  have halone : alone (Preparation.table (writingTo "/depot/out")) through (bookPath "Bin") =
      (.ok (some .written), stocked outText [["out"]] [emptyTable "Bin"]) := by
    rw [alone, hbin]
    exact written_of_update hfirst
  obtain ⟨later, hrun⟩ := @run_books "/depot/out" through _ _ _ _ hlist halone
    fun known hknown => by
      rw [value_item_later hknown]
      exact written_of_update hsecond
  refine ⟨hlist, ?_, run_tableStep_eq value_item_alone, later, hrun⟩
  rw [(run_tableStep _ _ _).1, halone]

/-- The table of the items is written alone, and skipped after a table that makes the folder through
which it is found. -/
theorem run_detour :
    detour.workspace.list? (writingTo "/depot/new/../out").workbookFolder
        (writingTo "/depot/new/../out").workbookPattern = some (Depot.tables.map bookPath) ∧
      (∀ name ∈ Depot.tables,
        ((tableStep (writingTo "/depot/new/../out") (bookPath name)).run detour).1 =
          .ok (some .written)) ∧
      ∃ later,
        (exportData (writingTo "/depot/new/../out")).run detour = (.ok ⟨1, 1, 0⟩, later) := by
  have htables : ∀ file ∈ [emptyTable "Item"], file.1.head? ≠ some "books" := by decide
  have hlist := @list?_books idText [["out"]] [emptyTable "Item"] "/depot/new/../out" htables
    (by decide)
  obtain ⟨hreadBin, hreadItem⟩ := @reading_stocked idText [["out"]] [emptyTable "Item"] idSchema
    read?_idText (by decide)
  have hbin := (@value_plain "/depot/new/../out" "Bin" detour (by decide) hreadBin
    (read?_stocked.2.2 "Bin" (by decide))).1
  have hitem := (@value_plain "/depot/new/../out" "Item" detour (by decide) hreadItem
    (read?_stocked.2.2 "Item" (by decide))).1
  obtain ⟨hfirst, hsecond, hthird⟩ := @update_new idText
  have halone : alone (Preparation.table (writingTo "/depot/new/../out")) detour
      (bookPath "Bin") = (.ok (some .written),
        stocked idText [["out"], ["new"]] [emptyTable "Item", emptyTable "Bin"]) := by
    rw [alone, hbin]
    exact written_of_update hsecond
  let made := stocked idText [["out"], ["new"]] [emptyTable "Item", emptyTable "Bin"]
  obtain ⟨later, hrun⟩ := @run_books "/depot/new/../out" detour made made _ _ hlist halone
    fun known hknown => by
      have hread : BatchState.reading ⟨made, known⟩ config.schemaFolder
          ("Item" ++ schemaSuffix) = .ok idSchema :=
        (reading_later hknown (by decide)).trans hreadItem
      rw [(@value_plain "/depot/new/../out" "Item" ⟨made, known⟩ (by decide) hread
        (read?_stocked.2.2 "Item" (by decide))).1]
      exact written_of_update hthird
  refine ⟨hlist, fun name hname => ?_, later, hrun⟩
  rcases List.mem_pair.1 hname with rfl | rfl
  · rw [(run_tableStep _ _ _).1, halone]
  · rw [run_tableStep_eq hitem]
    exact congrArg Prod.fst (written_of_update hfirst)

/-- **Tables can matter to each other.** In one depot a table fails alone and is written in a run,
where another table makes the folder that its schema leads through. In another one a table is
written alone, since its file is not found without the folder, and skipped in a run. -/
theorem not_alone :
    (through.workspace.list? (writingTo "/depot/out").workbookFolder
        (writingTo "/depot/out").workbookPattern = some (Depot.tables.map bookPath) ∧
      ((tableStep (writingTo "/depot/out") (bookPath "Bin")).run through).1 =
        .ok (some .written) ∧
      ((tableStep (writingTo "/depot/out") (bookPath "Item")).run through).1 =
        .error (.schema (.unreadable outDocument)) ∧
      ∃ later, (exportData (writingTo "/depot/out")).run through = (.ok ⟨2, 0, 0⟩, later)) ∧
    (detour.workspace.list? (writingTo "/depot/new/../out").workbookFolder
        (writingTo "/depot/new/../out").workbookPattern = some (Depot.tables.map bookPath) ∧
      (∀ name ∈ Depot.tables,
        ((tableStep (writingTo "/depot/new/../out") (bookPath name)).run detour).1 =
          .ok (some .written)) ∧
      ∃ later,
        (exportData (writingTo "/depot/new/../out")).run detour = (.ok ⟨1, 1, 0⟩, later)) :=
  ⟨run_through, run_detour⟩

end Depot

end TableExport
