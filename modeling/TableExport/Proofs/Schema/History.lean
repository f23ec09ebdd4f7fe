import TableExport.Batch.Basic
import TableExport.Proofs.Schema.Sessions

/-!
# Whole sessions

A session is used for many steps on schemas, and between them documents are registered and files
change. `History.after` runs such steps and notes each document that is registered or asked for; the
notes are taken by a library around that of the session (`Library.recorded`), so the steps are the
same and the session is what it would be without notes.

* `Event.Lawful` is what one event may do to the known documents, and `Passage` a row of lawful
  events; a known document stays until its name is registered (`Passage.get?_of_not_renewed`).
* `History.consistent` is what this comes to for whole sessions.
-/

namespace TableExport

/-! ## Events -/

/-- A document that is registered or asked for. -/
structure Event where
  name : String
  /-- Whether the document is registered. -/
  registers : Bool
  /-- The document that goes by the name then. -/
  result : Except SchemaError Json
  before : Documents
  after : Documents

/-- All known documents have the right shape. -/
def Documents.Checked (known : Documents) : Prop :=
  ∀ name document, known.get? name = some document → Shape.check name document = .ok ()

namespace Event

/-- Whether an event puts another document in the place of one with a name. -/
def Renews (event : Event) (name : String) : Prop :=
  event.registers = true ∧ event.name = name ∧ ∃ document, event.result = .ok document

/-- Whether a document is loaded. -/
def Loads (event : Event) : Prop :=
  event.registers = false ∧ event.before.get? event.name = none ∧
    ∃ document, event.result = .ok document

/-- What an event may do. -/
structure Lawful (event : Event) : Prop where
  failed : ∀ e, event.result = .error e → event.after = event.before
  answered : ∀ document, event.result = .ok document → event.after.get? event.name = some document
  kept : ∀ name document, event.before.get? name = some document → ¬ event.Renews name →
    event.after.get? name = some document
  known : ∀ document, event.registers = false → event.before.get? event.name = some document →
    event.result = .ok document
  checked : event.before.Checked → event.after.Checked

end Event

theorem Documents.Checked.insert {known : Documents} {name : String} {document : Json}
    (h : known.Checked) (hshape : Shape.check name document = .ok ()) :
    (known.insert name document).Checked := by
  intro other found hfound
  rw [Documents.get?_insert] at hfound
  split_ifs at hfound with hname
  · cases hfound
    exact hname ▸ hshape
  · exact h other found hfound

namespace Event

variable {known : Documents} {name : String} {document : Json} {registers : Bool}

theorem lawful_of_known (h : known.get? name = some document) :
    (Event.mk name false (.ok document) known known).Lawful where
  failed := fun _ hresult => nomatch hresult
  answered := fun _ hresult => Except.ok.inj hresult ▸ h
  kept := fun _ _ hget _ => hget
  known := fun _ _ hget => congrArg Except.ok (Option.some.inj (h.symm.trans hget))
  checked := id

theorem lawful_of_error {e : SchemaError} (h : registers = false → known.get? name = none) :
    (Event.mk name registers (.error e) known known).Lawful where
  failed := fun _ _ => rfl
  answered := fun _ hresult => nomatch hresult
  kept := fun _ _ hget _ => hget
  known := fun _ huse hget => nomatch (h huse).symm.trans hget
  checked := id

theorem lawful_insert (hshape : Shape.check name document = .ok ())
    (h : registers = false → known.get? name = none) :
    (Event.mk name registers (.ok document) known (known.insert name document)).Lawful where
  failed := fun _ hresult => nomatch hresult
  answered := fun other hresult => by
    cases hresult
    rw [Documents.get?_insert, if_pos rfl]
  kept := fun other found hget hkept => by
    rw [Documents.get?_insert]
    split_ifs with hname
    · -- a document that is known is not loaded, so it is registered
      have hregisters : registers = true := by
        cases registers with
        | true => rfl
        | false =>
          subst hname
          exact nomatch (h rfl).symm.trans hget
      exact absurd ⟨hregisters, hname, document, rfl⟩ hkept
    · exact hget
  known := fun _ huse hget => nomatch (h huse).symm.trans hget
  checked := fun hchecked => hchecked.insert hshape

/-- A document is asked for. -/
theorem lawful_getOrLoad (known : Documents) {load : String → Except SchemaError Json}
    (hload : ∀ document, load name = .ok document → Shape.check name document = .ok ()) :
    (Event.mk name false (known.getOrLoad name fun _ => load name).1 known
      (known.getOrLoad name fun _ => load name).2).Lawful := by
  rcases Documents.getOrLoad_eq known load name with ⟨document, hget, heq⟩ |
    ⟨document, hget, hdocument, heq⟩ | ⟨e, hget, -, heq⟩ <;> rw [heq]
  · exact lawful_of_known hget
  · exact lawful_insert (hload document hdocument) fun _ => hget
  · exact lawful_of_error fun _ => hget

/-- A document is registered. -/
theorem lawful_register (known : Documents) (name : String) (document : Json) :
    (Event.mk name true ((known.register name document).1.map fun _ => document) known
      (known.register name document).2).Lawful := by
  simp only [Documents.register]
  cases hshape : Shape.check name document with
  | ok => exact lawful_insert hshape fun h => nomatch h
  | error e => exact lawful_of_error fun h => nomatch h

end Event

/-! ## Rows of events -/

/-- Lawful events one after the other, which lead from some known documents to others. -/
inductive Passage : Documents → List Event → Documents → Prop
  | nil (known : Documents) : Passage known [] known
  | cons {event : Event} {events : List Event} {last : Documents} :
    event.Lawful → Passage event.after events last → Passage event.before (event :: events) last

namespace Passage

variable {first mid last : Documents} {events more : List Event} {name : String}

theorem append (h : Passage first events mid) (h' : Passage mid more last) :
    Passage first (events ++ more) last := by
  induction h with
  | nil => exact h'
  | cons hevent _ ih => exact .cons hevent (ih h')

theorem split (h : Passage first (events ++ more) last) :
    ∃ mid, Passage first events mid ∧ Passage mid more last := by
  induction events generalizing first with
  | nil => exact ⟨first, .nil first, h⟩
  | cons event events ih =>
    cases h with
    | cons hevent hrest =>
      obtain ⟨mid, hevents, hmore⟩ := ih hrest
      exact ⟨mid, .cons hevent hevents, hmore⟩

theorem lawful (h : Passage first events last) : ∀ event ∈ events, event.Lawful := by
  induction h with
  | nil => exact fun _ h => nomatch h
  | cons hevent _ ih => exact List.forall_mem_cons.2 ⟨hevent, ih⟩

theorem checked (h : Passage first events last) (hfirst : first.Checked) : last.Checked := by
  induction h with
  | nil => exact hfirst
  | cons hevent _ ih => exact ih (hevent.checked hfirst)

/-- **A known document stays until its name is registered again.** -/
theorem get?_of_not_renewed {document : Json} (h : Passage first events last)
    (hget : first.get? name = some document) (hkept : ∀ event ∈ events, ¬ event.Renews name) :
    last.get? name = some document := by
  induction h with
  | nil => exact hget
  | cons hevent _ ih =>
    obtain ⟨hown, hrest⟩ := List.forall_mem_cons.1 hkept
    exact ih (hevent.kept name document hget hown) hrest

/-- A known name stays known. -/
theorem known (h : Passage first events last) {document : Json}
    (hget : first.get? name = some document) : ∃ other, last.get? name = some other := by
  induction h generalizing document with
  | nil => exact ⟨document, hget⟩
  | @cons event _ _ hevent _ ih =>
    by_cases hrenews : event.Renews name
    · obtain ⟨-, hname, other, hresult⟩ := hrenews
      exact ih (hname ▸ hevent.answered other hresult)
    · exact ih (hevent.kept name document hget hrenews)

/-- **A name has the same answer until it is registered again.** -/
theorem result_eq {before between after : List Event} {answer use : Event} {document : Json}
    (h : Passage first (before ++ answer :: (between ++ use :: after)) last)
    (hanswer : answer.result = .ok document) (hname : use.name = answer.name)
    (huse : use.registers = false) (hkept : ∀ event ∈ between, ¬ event.Renews answer.name) :
    use.result = .ok document := by
  obtain ⟨mid, -, h⟩ := h.split
  cases h with
  | cons hlawful h =>
    obtain ⟨mid, hbetween, h⟩ := h.split
    have hget := hbetween.get?_of_not_renewed (hlawful.answered document hanswer) hkept
    cases h with
    | cons huses _ => exact huses.known document huse (hname ▸ hget)

/-- **A name is loaded once.** -/
theorem pairwise_loads (h : Passage first events last) :
    events.Pairwise fun event later => event.Loads → later.Loads → event.name ≠ later.name := by
  induction h with
  | nil => exact .nil
  | @cons event events last hevent hrest ih =>
    refine .cons (fun later hlater hloads hloads' hname => ?_) ih
    obtain ⟨before, after, rfl⟩ := List.append_of_mem hlater
    obtain ⟨mid, hbefore, h⟩ := hrest.split
    obtain ⟨-, -, document, hresult⟩ := hloads
    obtain ⟨other, hother⟩ := hbefore.known (hevent.answered document hresult)
    cases h with
    | cons _ _ =>
      rw [hname, hloads'.2.1] at hother
      cases hother

end Passage

/-! ## Sessions with notes -/

/-- Steps of a session that notes what is asked for. -/
abbrev NotedSession := ExceptT SchemaError (StateM (Documents × List Event))

/-- The library of a session, with a note of each document that is asked for. -/
def Library.recorded (library : Library Session) : Library NotedSession where
  read name := ExceptT.mk fun (known, events) =>
    let (result, after) := (library.read name).run known
    (result, after, events ++ [⟨name, false, result, known, after⟩])
  bound := library.bound

namespace Query

variable {α : Type} {library : Library Session}

/-- **Notes change nothing about a step**, and if single documents are asked for lawfully, so are
all. -/
theorem run_recorded (query : Query α)
    (hlawful : ∀ name known, (Event.mk name false ((library.read name).run known).1 known
      ((library.read name).run known).2).Lawful) (known : Documents) (events : List Event) :
    ∃ more, (query.answer library.recorded.read).run (known, events) =
        (((query.answer library.read).run known).1, ((query.answer library.read).run known).2,
          events ++ more) ∧
      Passage known more ((query.answer library.read).run known).2 := by
  induction query generalizing known events with
  | done result =>
    refine ⟨[], ?_, ?_⟩
    · rw [List.append_nil]
      cases result <;> rfl
    · cases result <;> exact .nil known
  | ask name next ih =>
    have hevent := hlawful name known
    have hrun : (library.recorded.read name).run (known, events) =
        (((library.read name).run known).1, ((library.read name).run known).2,
          events ++ [⟨name, false, ((library.read name).run known).1, known,
            ((library.read name).run known).2⟩]) := rfl
    rw [answer, answer, run_bind, run_bind, hrun]
    generalize (library.read name).run known = outcome at hevent
    obtain ⟨e | document, after⟩ := outcome
    · exact ⟨_, rfl, .cons hevent (.nil after)⟩
    · obtain ⟨more, hmore, hpassage⟩ := ih document after
        (events ++ [⟨name, false, .ok document, known, after⟩])
      rw [List.append_assoc] at hmore
      exact ⟨_ :: more, hmore, .cons hevent hpassage⟩

end Query

/-! ## Whole sessions -/

/-- What can be asked of a session about its documents. -/
inductive Request
  | read (name : String)
  | resolve (document : String) (node : Json)
  | inline (document : String) (node : Json)
  | typeNode (name document : String) (schema : Json)
  | tableRoot (document : String) (schema : Json)
  | definitionsFile (naming : Naming) (document : String)
  | documentFile (naming : Naming) (document : String)

namespace Request

/-- The number of nodes of the schema at hand. -/
def size : Request → Nat
  | resolve _ node | inline _ node | typeNode _ _ node | tableRoot _ node => node.size
  | read _ | definitionsFile _ _ | documentFile _ _ => 0

section Perform

variable {m : Type → Type} [Monad m] [MonadExceptOf SchemaError m]

/-- Does what is asked for, without its result. -/
def perform (library : Library m) : Request → m Unit
  | read name => do let _ ← library.read name
  | resolve document node => do let _ ← library.resolve document node
  | inline document node => do let _ ← library.inline document node
  | typeNode name document schema => do let _ ← library.typeNode name document schema
  | tableRoot document schema => do let _ ← library.tableRoot document schema
  | definitionsFile naming document => do let _ ← naming.definitionsFile library document
  | documentFile naming document => do let _ ← naming.documentFile library document

variable [LawfulMonad m] [LawfulFailure m]

theorem answer_perform (library : Library m) (request : Request) :
    (request.perform (Query.library library.bound)).answer library.read =
      request.perform library := by
  cases request <;>
    simp only [perform, Query.answer_bind, Query.answer_read, Query.answer_resolve, Query.answer_pure,
      Query.answer_inline, Query.answer_typeNode, Query.answer_tableRoot,
      Query.answer_definitionsFile, Query.answer_documentFile]

end Perform

end Request

/-- What happens in a session: a request, a document that is registered, and files that change. -/
inductive Operation
  | ask (request : Request)
  | register (name : String) (document : Json)
  | files (workspace : Workspace)

/-- A session over a workspace, with notes. -/
structure History extends BatchState where
  events : List Event := []

namespace Operation

/-- Does an operation with the documents of a folder. -/
def run (folder : String) (state : BatchState) : Operation → BatchState
  | ask request => ((Batch.withSchemas folder request.size request.perform).run state).2
  | register name document => { state with known := (state.known.register name document).2 }
  | files workspace => { state with workspace }

/-- Does an operation and notes which documents it is about. -/
def note (folder : String) (history : History) : Operation → History
  | ask request =>
    let library := history.workspace.library folder history.known request.size
    let (_, known, events) := (request.perform library.recorded).run (history.known, history.events)
    { history with known, events }
  | register name document =>
    let (result, known) := history.known.register name document
    let event := ⟨name, true, result.map fun _ => document, history.known, known⟩
    { history with known, events := history.events ++ [event] }
  | files workspace => { history with workspace }

/-- A document of a folder has the right shape. -/
theorem check_of_schema {workspace : Workspace} {folder name : String} {document : Json}
    (h : workspace.schema folder name = .ok document) : Shape.check name document = .ok () := by
  rw [Workspace.schema] at h
  split at h
  · cases h
  · obtain ⟨⟨⟩, hshape, rfl⟩ := map_eq_ok.1 h
    exact hshape

/-- **Notes change nothing about an operation**, and it leads to the next known documents by lawful
events. -/
theorem note_eq (folder : String) (history : History) (operation : Operation) :
    (note folder history operation).toBatchState = run folder history.toBatchState operation ∧
      ∃ more, (note folder history operation).events = history.events ++ more ∧
        Passage history.known more (note folder history operation).known := by
  cases operation with
  | ask request =>
    let library := history.workspace.library folder history.known request.size
    have hlawful : ∀ name known, (Event.mk name false ((library.read name).run known).1 known
        ((library.read name).run known).2).Lawful :=
      fun name known => Event.lawful_getOrLoad known fun _ => check_of_schema
    obtain ⟨more, hmore, hpassage⟩ := Query.run_recorded
      (request.perform (Query.library library.bound)) hlawful history.known history.events
    have hnoted := request.answer_perform library.recorded
    rw [request.answer_perform library] at hmore hpassage
    replace hmore := (congrFun (congrArg ExceptT.run hnoted) _).symm.trans hmore
    simp only [note, run, Batch.withSchemas, ExceptT.run_mk]
    rw [hmore]
    exact ⟨rfl, more, rfl, hpassage⟩
  | register name document =>
    exact ⟨rfl, _, rfl, .cons (Event.lawful_register history.known name document) (.nil _)⟩
  | files workspace => exact ⟨rfl, [], (List.append_nil _).symm, .nil _⟩

/-- Operations one after the other lead to the next known documents by lawful events. -/
theorem foldl_note (folder : String) (operations : List Operation) (history : History) :
    (operations.foldl (note folder) history).toBatchState =
        operations.foldl (run folder) history.toBatchState ∧
      ∃ more, (operations.foldl (note folder) history).events = history.events ++ more ∧
        Passage history.known more (operations.foldl (note folder) history).known := by
  induction operations generalizing history with
  | nil => exact ⟨rfl, [], (List.append_nil _).symm, .nil _⟩
  | cons operation rest ih =>
    obtain ⟨hstate, more, hevents, hpassage⟩ := note_eq folder history operation
    obtain ⟨hstate', more', hevents', hpassage'⟩ := ih (note folder history operation)
    rw [List.foldl_cons, List.foldl_cons]
    refine ⟨hstate'.trans (by rw [hstate]), more ++ more', ?_, hpassage.append hpassage'⟩
    rw [hevents', hevents, List.append_assoc]

end Operation

namespace History

/-- The history of a new session. -/
def after (folder : String) (workspace : Workspace) (operations : List Operation) : History :=
  operations.foldl (Operation.note folder) { workspace }

/-- **The known documents are consistent over whole sessions.** For all operations in a new session:

* the notes change nothing about the session, and the events lead from no documents to those that
  are known;
* each document that is known has the right shape;
* a document that cannot be registered or loaded leaves the known documents as they are;
* once a name has an answer, each use of the name has this answer until the name is registered,
  whatever happens to the files;
* a name is loaded at most once. -/
theorem consistent (folder : String) (workspace : Workspace) (operations : List Operation) :
    (after folder workspace operations).toBatchState =
        operations.foldl (Operation.run folder) { workspace } ∧
      Passage .empty (after folder workspace operations).events
        (after folder workspace operations).known ∧
      (after folder workspace operations).known.Checked ∧
      (∀ event ∈ (after folder workspace operations).events, event.after.Checked ∧
        ∀ e, event.result = .error e → event.after = event.before) ∧
      (∀ before between later answer use document,
        (after folder workspace operations).events =
          before ++ answer :: (between ++ use :: later) →
        answer.result = .ok document → use.name = answer.name → use.registers = false →
        (∀ event ∈ between, ¬ event.Renews answer.name) → use.result = .ok document) ∧
      (after folder workspace operations).events.Pairwise fun event later =>
        event.Loads → later.Loads → event.name ≠ later.name := by
  obtain ⟨hstate, events, hevents, hpassage⟩ :=
    Operation.foldl_note folder operations { workspace }
  have hempty : Documents.empty.Checked := fun _ _ h => nomatch h
  rw [List.nil_append] at hevents
  rw [after, hevents]
  refine ⟨hstate, hpassage, hpassage.checked hempty, fun event hevent => ⟨?_, ?_⟩,
    fun before between later answer use document heq hanswer hname huse hkept => ?_,
    hpassage.pairwise_loads⟩
  · obtain ⟨earlier, rest, rfl⟩ := List.append_of_mem hevent
    obtain ⟨mid, hearlier, hrest⟩ := hpassage.split
    cases hrest with
    | cons hlawful _ => exact hlawful.checked (hearlier.checked hempty)
  · exact (hpassage.lawful event hevent).failed
  · subst heq
    exact hpassage.result_eq hanswer hname huse hkept

/-- A file that is gone after it was read. -/
example : (after "" ⟨"", [(["A"], "\x7b\x7d".toUTF8)], []⟩
    [.ask (.read "A"), .files ⟨"", [], []⟩,
      .ask (.inline "B" (.obj [("$ref", .str "A")]))]).events.map Event.result =
    [.ok (.obj []), .ok (.obj [])] :=
  rfl

end History

end TableExport
