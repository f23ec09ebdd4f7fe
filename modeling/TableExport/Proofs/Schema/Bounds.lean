import TableExport.Proofs.Json.Size
import TableExport.Proofs.Schema.Circles
import TableExport.Proofs.Schema.Sessions
import TableExport.Proofs.Schema.Shapes
import TableExport.Schema.Folder

/-!
# Bounds do not matter

The bound of a library is made from the sizes of all documents at hand, so it differs between
sessions that have other documents at hand besides those that matter. A step is steady if its
result is the same for all bounds that leave enough room (`Query.Steady`), as those of typing,
inlining and declaring are. Two sessions have the same result of a steady step if they read the
same under the names that the first asks for (`Query.Steady.answer_eq`); the bound of a folder
leaves enough room for each of them (`roomy_reading`).
-/

namespace TableExport

/-! ## Steady steps -/

namespace Library

variable {read read' : String → Except SchemaError Json} {bound bound' : Nat} {start : String}
  {references : List String} {size : Nat}

/-- There is as much room for some of the documents. -/
theorem Roomy.only (h : (Library.mk read bound).Roomy start references size)
    (names : List String) (mark : String) :
    (Library.mk (Query.only names mark read) bound).Roomy start references size := by
  have hread : ∀ name result, Query.only names mark read name = result →
      read name = result ∨ result = .error (.unreadable mark) := by
    intro name result hresult
    rw [Query.only] at hresult
    split_ifs at hresult
    · exact Or.inl hresult
    · exact Or.inr hresult.symm
  refine ⟨⟨fun name root hroot => ?_, fun name root hroot => ?_, fun name chain hchain => ?_⟩,
    h.room⟩
  · exact h.bounded.references name root ((hread name _ hroot).resolve_right (by rintro ⟨⟩))
  · exact h.bounded.size name root ((hread name _ hroot).resolve_right (by rintro ⟨⟩))
  · exact h.bounded.read_ne name chain ((hread name _ hchain).resolve_right (by rintro ⟨⟩))

theorem Bounded.withBound (h : (Library.mk read bound).Bounded references size) (bound' : Nat) :
    (Library.mk read bound').Bounded references size :=
  ⟨h.references, h.size, h.read_ne⟩

/-- A document that is read is inside. -/
theorem Roomy.inside_of_read {library : Library (Except SchemaError)}
    (h : library.Roomy start references size) {root : Json} (hread : library.read start = .ok root) :
    Inside start references size start root :=
  ⟨List.mem_cons_self, h.bounded.references start root hread, h.bounded.size start root hread⟩

end Library

namespace Query

variable {α β : Type} {start : String}

/-- The result of a step is the same for all bounds that leave enough room. What the step starts
with satisfies `Starts` for the references and the size that there is room for. -/
def Steady (start : String) (Starts : List String → Nat → Prop) (query : Nat → Query α) : Prop :=
  ∀ read bound bound' references size,
    (Library.mk read bound).Roomy start references size →
    (Library.mk read bound').Roomy start references size → Starts references size →
    (query bound').answer read = (query bound).answer read

/-- **Sessions that read the same under the names that a step asks for have the same result**,
whatever their bounds are. -/
theorem Steady.answer_eq {Starts : List String → Nat → Prop} {query : Nat → Query α}
    (hsteady : Steady start Starts query) {read read' : String → Except SchemaError Json}
    {bound bound' : Nat} {references references' : List String} {size size' : Nat}
    (h : (Library.mk read bound).Roomy start references size) (hstarts : Starts references size)
    (h' : (Library.mk read' bound').Roomy start references' size')
    (hstarts' : Starts references' size')
    (hread : ∀ name ∈ (query bound).asked read, read' name = read name) :
    (query bound').answer read' = (query bound).answer read ∧
      (query bound').asked read' ⊆ (query bound).asked read := by
  refine answer_eq_of_asked (fun mark => ?_) hread
  have honly : only ((query bound).asked read) mark read' =
      only ((query bound).asked read) mark read := by
    funext name
    simp only [only]
    split_ifs with hname
    · exact hread name hname
    · rfl
  have hroomy := h.only ((query bound).asked read) mark
  have hroomy' := h'.only ((query bound).asked read) mark
  rw [honly] at hroomy'
  -- the smaller one of the two rooms is in both bounds
  rcases le_total ((SchemaReference.keys start references).length * (size + 1) + size)
    ((SchemaReference.keys start references').length * (size' + 1) + size') with hle | hle
  · exact hsteady _ _ _ references size hroomy ⟨hroomy.bounded.withBound _, hle.trans_lt hroomy'.room⟩
      hstarts
  · exact hsteady _ _ _ references' size' ⟨hroomy'.bounded.withBound _, hle.trans_lt hroomy.room⟩
      hroomy' hstarts'

/-! ## The steps of a run -/

section Steps

variable (document : String)

/-- The schema of a table and its type. -/
def table (bound : Nat) : Query (Json × TypeTree) := do
  let schema ← (library bound).read document
  return (schema, ← (library bound).tableRoot document schema)

theorem steady_table : Steady document (fun _ _ => True) (table document) := by
  intro read bound bound' references size h h' _
  simp only [table, answer_bind, answer_read, answer_tableRoot, answer_pure]
  cases hread : read document with
  | error e => rfl
  | ok schema =>
    have hroot := h.tableRoot_congr h' rfl (h.inside_of_read hread)
    simp only [Bind.bind, Except.bind, hroot]

theorem steady_inline (schema : Json) :
    Steady document (fun references size => Inside document references size document schema)
      fun bound => (library bound).inline document schema := by
  intro read bound bound' references size h h' hinside
  rw [answer_inline, answer_inline]
  exact Library.isWalk_inlineWithin.congr_of_roomy Library.shrinks_inlineChildren h' h rfl hinside ()

end Steps

end Query

namespace Library

variable {read : String → Except SchemaError Json} {bound bound' : Nat} {document : String}
  {references : List String} {size : Nat} (naming : Naming)

theorem Roomy.declareAll_congr (h : (Library.mk read bound).Roomy document references size)
    (h' : (Library.mk read bound').Roomy document references size)
    {members : List (String × Json)}
    (hmembers : ∀ member ∈ members, Inside document references size document member.2) :
    naming.declareAll ⟨read, bound⟩ document members =
      naming.declareAll ⟨read, bound'⟩ document members := by
  induction members with
  | nil => rfl
  | cons member rest ih =>
    obtain ⟨hmember, hrest⟩ := List.forall_mem_cons.1 hmembers
    have htype : (Library.mk read bound).typeNode member.1 document member.2 =
        (Library.mk read bound').typeNode member.1 document member.2 :=
      isWalk_buildWithin.congr_of_roomy shrinks_typeChildren h h' rfl hmember (member.1, member.1)
    rw [Naming.declareAll, Naming.declareAll, htype, ih hrest]

theorem Roomy.definitions_congr (h : (Library.mk read bound).Roomy document references size)
    (h' : (Library.mk read bound').Roomy document references size) :
    naming.definitions ⟨read, bound⟩ document = naming.definitions ⟨read, bound'⟩ document := by
  rw [Naming.definitions, Naming.definitions]
  change (read document >>= _) = (read document >>= _)
  cases hread : read document with
  | error e => rfl
  | ok root =>
    simp only [bind, Except.bind]
    split
    · rename_i members hmembers
      obtain ⟨value, hvalue, hobj⟩ := Option.bind_eq_some_iff.1 hmembers
      cases value <;> cases hobj
      obtain ⟨entries, rfl, hentry⟩ := Json.exists_mem_of_get? hvalue
      have hinside := (h.inside_of_read hread).part (Json.within_of_mem_members hentry).1
      exact h.declareAll_congr naming h' fun member hmember =>
        hinside.part (Json.within_of_mem_members hmember).1
    · rfl

end Library

namespace Query

theorem steady_documentFile (naming : Naming) (document : String) :
    Steady document (fun _ _ => True) fun bound =>
      naming.documentFile (library bound) document := by
  intro read bound bound' references size h h' _
  rw [answer_documentFile, answer_documentFile, Naming.documentFile, Naming.documentFile,
    h.definitions_congr naming h']
  refine bind_congr fun declarations => ?_
  change (read document >>= _) = (read document >>= _)
  cases hread : read document with
  | error e => rfl
  | ok root =>
    have hroot := h.tableRoot_congr h' rfl (h.inside_of_read hread)
    simp only [Bind.bind, Except.bind, hroot]

end Query

/-! ## The bound of a folder -/

namespace Workspace

variable {workspace : Workspace} {folder : String} {known : Documents}

/-- The documents that a session can read: the known ones and those in the files. -/
def sources (workspace : Workspace) (known : Documents) : List Json :=
  known.entries.map Prod.snd ++
    workspace.files.filterMap fun file => (String.fromUTF8? file.2).bind Json.read?

/-- What some items hold is not more than what the items weigh. -/
theorem sum_filterMap_le {α β : Type} {f : α → Option β} {size : β → Nat} {weight : α → Nat}
    {items : List α} (h : ∀ item ∈ items, ∀ found, f item = some found → size found ≤ weight item) :
    ((items.filterMap f).map size).sum ≤ (items.map weight).sum := by
  induction items with
  | nil => exact le_refl _
  | cons item rest ih =>
    obtain ⟨hitem, hrest⟩ := List.forall_mem_cons.1 h
    rw [List.filterMap_cons, List.map_cons, List.sum_cons]
    cases hfound : f item with
    | none => exact (ih hrest).trans (Nat.le_add_left _ _)
    | some found =>
      rw [List.map_cons, List.sum_cons]
      exact Nat.add_le_add (hitem found hfound) (ih hrest)

theorem sum_sources_le (workspace : Workspace) (known : Documents) :
    ((workspace.sources known).map Json.size).sum ≤ workspace.size + known.size := by
  have hknown : ((known.entries.map Prod.snd).map Json.size).sum = known.size := by
    rw [Library.size_documents, List.map_map]
    rfl
  have hfiles : workspace.size = (workspace.files.map fun file => file.2.size).sum := by
    rw [Workspace.size, List.sum_eq_foldl, List.foldl_map]
  have hread : ∀ file ∈ workspace.files, ∀ document,
      (String.fromUTF8? file.2).bind Json.read? = some document → document.size ≤ file.2.size := by
    intro file _ document hdocument
    obtain ⟨text, htext, hdocument⟩ := Option.bind_eq_some_iff.1 hdocument
    rw [String.fromUTF8?] at htext
    split_ifs at htext
    cases htext
    exact Json.size_le_of_read? hdocument
  rw [sources, List.map_append, List.sum_append, hknown, hfiles, Nat.add_comm]
  gcongr
  exact sum_filterMap_le hread

theorem reading_mem_sources {name : String} {root : Json}
    (h : known.reading (workspace.schema folder) name = .ok root) :
    root ∈ workspace.sources known := by
  rw [Documents.reading] at h
  split at h
  · rename_i hget
    cases h
    exact List.mem_append_left _ (List.mem_map_of_mem (f := Prod.snd) (Entries.mem_of_get? hget))
  · rw [schema] at h
    split at h
    · cases h
    · rename_i hread
      obtain ⟨-, -, rfl⟩ := map_eq_ok.1 h
      obtain ⟨text, htext, hread⟩ := Option.bind_eq_some_iff.1 hread
      obtain ⟨content, hcontent, htext⟩ := Option.bind_eq_some_iff.1 htext
      obtain ⟨location, -, hcontent⟩ := Option.bind_eq_some_iff.1 hcontent
      obtain ⟨file, hfile, rfl⟩ := Option.map_eq_some_iff.1 hcontent
      refine List.mem_append_right _ (List.mem_filterMap.2 ⟨file, List.mem_of_find?_eq_some hfile, ?_⟩)
      rw [htext]
      exact hread

theorem reading_ne_circular (name : String) (chain : List String) :
    known.reading (workspace.schema folder) name ≠ .error (.circularReference chain) := by
  rw [Documents.reading]
  split
  · rintro ⟨⟩
  · rw [schema]
    split
    · rintro ⟨⟩
    · intro h
      obtain ⟨_, _, he⟩ := Shape.check_eq_error (map_eq_error.1 h)
      cases he

/-- **The bound of a folder leaves enough room.** -/
theorem exists_roomy (workspace : Workspace) (folder : String) (known : Documents) (start : String)
    {size : Nat} {nodes : List Json} (hsize : (nodes.map Json.size).sum ≤ size) :
    ∃ references room,
      (Library.mk (known.reading (workspace.schema folder))
        (workspace.library folder known size).bound).Roomy start references room ∧
      ∀ node ∈ nodes, Inside start references room start node := by
  have hdrawn : (Library.mk (known.reading (workspace.schema folder))
      (workspace.library folder known size).bound).Drawn (nodes ++ workspace.sources known) :=
    ⟨fun name root hread => List.mem_append_right _ (reading_mem_sources hread),
      reading_ne_circular⟩
  refine ⟨_, _, hdrawn.roomy start ?_, fun node hnode =>
    Library.inside_of_mem_sources start (List.mem_append_left _ hnode)⟩
  have hsources := sum_sources_le workspace known
  rw [List.map_append, List.sum_append]
  change Library.boundFor _ ≤ Library.boundFor _
  have hle : (nodes.map Json.size).sum + ((workspace.sources known).map Json.size).sum ≤
      workspace.size + known.size + size := by
    omega
  rw [Library.boundFor, Library.boundFor]
  gcongr

end Workspace

end TableExport
