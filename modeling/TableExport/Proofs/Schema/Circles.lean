import TableExport.Proofs.Schema.Building
import TableExport.Proofs.Schema.Children

/-!
# Circles of references

References in a fixed set of documents are handled in finitely many steps, and a circle that is
reported is one.

* `boundFor_suffices`: the bound that belongs to the size of the documents leaves enough room.
* `Library.circles_of_references`: a larger bound changes nothing; a circle is reported by `resolve`
  exactly when no node without a reference is reached, and by the recursions only when a node is
  reached again below itself; what would go on forever fails.

Keys are texts, so a place has a key of its own only where the name of the document that a walk
starts in does not read as a reference with a pointer. In `hashDocuments` it does, and a circle is
reported that is none.
-/

namespace TableExport

namespace Library

variable {library : Library (Except SchemaError)} {document : String} {node : Json}

/-! ## Rows -/

/-- A circle on the way to the rows is one of the references of the table or of its items. -/
theorem rowSchema_eq_circular {chain : List String}
    (h : library.rowSchema document node = .error (.circularReference chain)) :
    library.resolve document node = .error (.circularReference chain) ∨
      ∃ resolved, library.resolve document node = .ok resolved ∧
        schemaKind? resolved.schema = some "array" ∧
        library.resolve resolved.document (itemSchema resolved.schema) =
          .error (.circularReference chain) := by
  rw [rowSchema] at h
  cases hresolved : library.resolve document node with
  | error e =>
    rw [hresolved] at h
    cases h
    exact Or.inl rfl
  | ok resolved =>
    rw [hresolved] at h
    simp only [bind, Except.bind] at h
    split at h
    · cases h
    · rename_i hkind
      refine Or.inr ⟨resolved, rfl, hkind, ?_⟩
      cases hitems : library.resolve resolved.document (itemSchema resolved.schema) with
      | error e =>
        rw [hitems] at h
        cases h
        rfl
      | ok items =>
        rw [hitems] at h
        simp only at h
        split at h <;> cases h
    · cases h

/-- An array goes on with its items only. -/
theorem typeChildren_of_array {schema : Json} (h : schemaKind? schema = some "array") :
    typeChildren schema = [itemSchema schema] := by
  simp only [typeChildren, h]

theorem typeChildren_of_object {schema : Json} (h : schemaKind? schema = some "object") :
    typeChildren schema = ((properties? schema).getD []).map Prod.snd := by
  simp only [typeChildren, h]

/-- The root of a table is made of the trees of the properties of its rows. -/
theorem visits_tableRoot {row : Resolved} (hrow : library.rowSchema document node = .ok row) :
    Visits (fun (field : String × String) child =>
        library.buildWithin library.bound field.1 row.document child field.2 [])
      (typeChildren row.schema) (library.tableRoot document node) := by
  rw [typeChildren_of_object (rowSchema_eq_ok hrow).1, tableRoot, hrow]
  exact (visits_buildObject TypeTree.rootName row.schema "").map _

theorem tableRoot_eq_circular {chain : List String}
    (h : library.tableRoot document node = .error (.circularReference chain)) :
    library.rowSchema document node = .error (.circularReference chain) ∨
      ∃ row, library.rowSchema document node = .ok row ∧
        ∃ child ∈ typeChildren row.schema, ∃ field : String × String,
          library.buildWithin library.bound field.1 row.document child field.2 [] =
            .error (.circularReference chain) := by
  cases hrow : library.rowSchema document node with
  | error e =>
    rw [tableRoot, hrow] at h
    cases h
    exact Or.inl rfl
  | ok row => exact Or.inr ⟨row, rfl, (visits_tableRoot hrow).circular h⟩

/-! ## The way to the rows -/

section Way

variable {home : String}

theorem walk_of_resolve (hname : SchemaReference.NameOn home document) {resolved : Resolved}
    (h : library.resolve document node = .ok resolved) :
    Relation.ReflTransGen library.Refers ⟨document, node⟩ resolved.place ∧
      SchemaReference.NameOn home resolved.document := by
  obtain ⟨hway, hname', -⟩ := places_of_walk (follow_eq_ok h).1 rfl hname
  exact ⟨hway, hname'⟩

/-- Typing goes from an array to its items. -/
theorem expands_itemSchema {resolved : Resolved} (h : library.resolve document node = .ok resolved)
    (hkind : schemaKind? resolved.schema = some "array") :
    library.Expands typeChildren resolved.place
      ⟨resolved.document, itemSchema resolved.schema⟩ := by
  refine Or.inr ⟨get?_ref_of_resolve h, ?_, rfl⟩
  rw [show typeChildren resolved.place.node = _ from typeChildren_of_array hkind]
  exact List.mem_singleton_self _

/-- Typing goes from a table to its rows. -/
theorem walk_of_rowSchema (hname : SchemaReference.NameOn home document) {row : Resolved}
    (h : library.rowSchema document node = .ok row) :
    Relation.ReflTransGen (library.Expands typeChildren) ⟨document, node⟩ row.place ∧
      SchemaReference.NameOn home row.document ∧ row.schema.get? "$ref" = none := by
  obtain ⟨-, resolved, hresolved, rfl | ⟨hkind, hitems⟩⟩ := rowSchema_eq_ok h
  · obtain ⟨hway, hname'⟩ := walk_of_resolve hname hresolved
    exact ⟨expands_of_refers hway, hname', get?_ref_of_resolve hresolved⟩
  · obtain ⟨hway, hname'⟩ := walk_of_resolve hname hresolved
    obtain ⟨hway', hname''⟩ := walk_of_resolve hname' hitems
    exact ⟨((expands_of_refers hway).tail (expands_itemSchema hresolved hkind)).trans
      (expands_of_refers hway'), hname'', get?_ref_of_resolve hitems⟩

/-- A path that goes on forever from a table passes its rows. -/
theorem Endless.rowSchema (hendless : library.Endless typeChildren ⟨document, node⟩)
    {row : Resolved} (h : library.rowSchema document node = .ok row) :
    library.Endless typeChildren row.place := by
  obtain ⟨-, resolved, hresolved, rfl | ⟨hkind, hitems⟩⟩ := rowSchema_eq_ok h
  · exact hendless.resolved (walk_of_resolve (Or.inr rfl) hresolved).1
  · obtain ⟨hway, -⟩ := walk_of_resolve (Or.inr (rfl : document = document)) hresolved
    have hbelow := hendless.resolved hway
    obtain ⟨child, hchild, hbelow⟩ := hbelow.descend (get?_ref_of_resolve hresolved)
    rw [show typeChildren resolved.place.node = _ from typeChildren_of_array hkind] at hchild
    rw [List.mem_singleton.1 hchild] at hbelow
    exact hbelow.resolved (walk_of_resolve (Or.inr rfl) hitems).1

/-- A circle of references is a place that is reached again. -/
theorem loops_of_resolve {children : Json → List Json} (hhome : SchemaReference.PlainName home)
    (hread : ∀ name chain, library.read name ≠ .error (.circularReference chain))
    (hname : SchemaReference.NameOn home document) {chain : List String}
    (h : library.resolve document node = .error (.circularReference chain))
    (hgenuine : ¬ chain.Nodup) : library.Loops children ⟨document, node⟩ := by
  obtain ⟨place, pointer, hat, hway, hloop⟩ := exists_loop_of_resolve hhome hread hname h hgenuine
  exact ⟨place, pointer, hat, expands_of_refers hway,
    Relation.TransGen.mono (fun _ _ hstep => Or.inl hstep) _ _ hloop⟩

/-- **A circle that is reported of a table is a place that is reached again below itself.** -/
theorem loops_of_tableRoot (hhome : SchemaReference.PlainName home)
    (hread : ∀ name chain, library.read name ≠ .error (.circularReference chain))
    (hname : SchemaReference.NameOn home document) {chain : List String}
    (h : library.tableRoot document node = .error (.circularReference chain))
    (hgenuine : ¬ chain.Nodup) : library.Loops typeChildren ⟨document, node⟩ := by
  rcases tableRoot_eq_circular h with hrow | ⟨row, hrow, child, hchild, field, hbuild⟩
  · rcases rowSchema_eq_circular hrow with hresolve | ⟨resolved, hresolved, hkind, hitems⟩
    · exact loops_of_resolve hhome hread hname hresolve hgenuine
    · obtain ⟨hway, hname'⟩ := walk_of_resolve hname hresolved
      exact (loops_of_resolve hhome hread hname' hitems hgenuine).of_walk
        ((expands_of_refers hway).tail (expands_itemSchema hresolved hkind))
  · obtain ⟨hway, hname', href⟩ := walk_of_rowSchema hname hrow
    have hdown : library.Expands typeChildren row.place ⟨row.document, child⟩ :=
      Or.inr ⟨href, hchild, rfl⟩
    have hloops := isWalk_buildWithin.loops field hhome hread hname' hbuild hgenuine
    exact hloops.of_walk (hway.tail hdown)

/-- **A table whose schema goes on forever has no type tree.** -/
theorem not_endless_of_tableRoot {root : TypeTree}
    (h : library.tableRoot document node = .ok root) :
    ¬ library.Endless typeChildren ⟨document, node⟩ := by
  intro hendless
  obtain ⟨row, hrow, -⟩ := bind_eq_ok.1 (show library.rowSchema document node >>= _ = _ from h)
  obtain ⟨-, -, href⟩ := walk_of_rowSchema (Or.inr (rfl : document = document)) hrow
  obtain ⟨child, hchild, hbelow⟩ := (hendless.rowSchema hrow).descend href
  obtain ⟨field, tree, htree⟩ := (visits_tableRoot hrow).ok h child hchild
  exact isWalk_buildWithin.not_endless field htree hbelow

end Way

/-! ## Enough room -/

/-- The bound of a library leaves room for every walk through places of a size. -/
structure Roomy (library : Library (Except SchemaError)) (start : String)
    (references : List String) (size : Nat) : Prop where
  bounded : library.Bounded references size
  room : (SchemaReference.keys start references).length * (size + 1) + size < library.bound

section Roomy

variable {start : String} {references : List String} {size : Nat}
  {library' : Library (Except SchemaError)}

theorem Roomy.length_keys_lt (h : library.Roomy start references size) :
    (SchemaReference.keys start references).length < library.bound := by
  have hroom := h.room
  have hle := Nat.le_mul_of_pos_right (SchemaReference.keys start references).length
    (show 0 < size + 1 from size.succ_pos)
  omega

theorem Roomy.room_lt (h : library.Roomy start references size)
    (hinside : Inside start references size document node) :
    Library.room start references size [] node < library.bound := by
  have hroom := h.room
  have hsize := hinside.size
  rw [Library.room, List.length_nil, Nat.sub_zero]
  omega

theorem Roomy.genuine_resolve (h : library.Roomy start references size)
    (hinside : Inside start references size document node) :
    Genuine (library.resolve document node) :=
  Library.genuine_resolve h.bounded hinside h.length_keys_lt

theorem Roomy.resolve_congr (h : library.Roomy start references size)
    (h' : library'.Roomy start references size) (hread : library.read = library'.read)
    (hinside : Inside start references size document node) :
    library.resolve document node = library'.resolve document node :=
  Library.resolve_congr hread h.bounded hinside h.length_keys_lt h'.length_keys_lt

theorem Roomy.inside_of_resolve (h : library.Roomy start references size)
    (hinside : Inside start references size document node) {resolved : Resolved}
    (hresolve : library.resolve document node = .ok resolved) :
    Inside start references size resolved.document resolved.schema :=
  (walked_of_walk h.bounded (walked_start hinside) (follow_eq_ok hresolve).1).inside

/-- A walk that the bound is meant for ends by itself. -/
theorem IsWalk.genuine_of_roomy {α β : Type} {children : Json → List Json}
    {run : Library (Except SchemaError) → Nat → β → String → Json → List String →
      Except SchemaError α}
    {combine : (β → Json → Except SchemaError α) → β → Resolved → Except SchemaError α}
    (hwalk : IsWalk children run combine) (hshrinks : Shrinks children)
    (h : library.Roomy start references size)
    (hinside : Inside start references size document node) (b : β) :
    Genuine (run library library.bound b document node []) :=
  hwalk.genuine h.bounded hshrinks h.length_keys_lt hinside List.nodup_nil (List.nil_subset _)
    (h.room_lt hinside)

theorem IsWalk.congr_of_roomy {α β : Type} {children : Json → List Json}
    {run : Library (Except SchemaError) → Nat → β → String → Json → List String →
      Except SchemaError α}
    {combine : (β → Json → Except SchemaError α) → β → Resolved → Except SchemaError α}
    (hwalk : IsWalk children run combine) (hshrinks : Shrinks children)
    (h : library.Roomy start references size) (h' : library'.Roomy start references size)
    (hread : library.read = library'.read)
    (hinside : Inside start references size document node) (b : β) :
    run library library.bound b document node [] =
      run library' library'.bound b document node [] :=
  hwalk.congr_of_room hread h.bounded hshrinks h.length_keys_lt h'.length_keys_lt hinside
    List.nodup_nil (List.nil_subset _) (h.room_lt hinside) (h'.room_lt hinside)

/-! ### Tables -/

theorem Roomy.inside_itemSchema (h : library.Roomy start references size)
    (hinside : Inside start references size document node) {resolved : Resolved}
    (hresolve : library.resolve document node = .ok resolved)
    (hkind : schemaKind? resolved.schema = some "array") :
    Inside start references size resolved.document (itemSchema resolved.schema) := by
  refine (h.inside_of_resolve hinside hresolve).part (shrinks_typeChildren _ _ ?_).1
  rw [typeChildren_of_array hkind]
  exact List.mem_singleton_self _

theorem Roomy.inside_of_rowSchema (h : library.Roomy start references size)
    (hinside : Inside start references size document node) {row : Resolved}
    (hrow : library.rowSchema document node = .ok row) :
    Inside start references size row.document row.schema := by
  obtain ⟨-, resolved, hresolved, rfl | ⟨hkind, hitems⟩⟩ := rowSchema_eq_ok hrow
  · exact h.inside_of_resolve hinside hresolved
  · exact h.inside_of_resolve (h.inside_itemSchema hinside hresolved hkind) hitems

theorem Roomy.genuine_tableRoot (h : library.Roomy start references size)
    (hinside : Inside start references size document node) :
    Genuine (library.tableRoot document node) := by
  intro chain hroot
  rcases tableRoot_eq_circular hroot with hrow | ⟨row, hrow, child, hchild, field, hbuild⟩
  · rcases rowSchema_eq_circular hrow with hresolve | ⟨resolved, hresolved, hkind, hitems⟩
    · exact h.genuine_resolve hinside chain hresolve
    · exact h.genuine_resolve (h.inside_itemSchema hinside hresolved hkind) chain hitems
  · have hbelow := (h.inside_of_rowSchema hinside hrow).part (shrinks_typeChildren _ _ hchild).1
    exact isWalk_buildWithin.genuine_of_roomy shrinks_typeChildren h hbelow field chain hbuild

theorem Roomy.rowSchema_congr (h : library.Roomy start references size)
    (h' : library'.Roomy start references size) (hread : library.read = library'.read)
    (hinside : Inside start references size document node) :
    library.rowSchema document node = library'.rowSchema document node := by
  rw [rowSchema, rowSchema, ← h.resolve_congr h' hread hinside]
  cases hresolved : library.resolve document node with
  | error e => rfl
  | ok resolved =>
    simp only [bind, Except.bind]
    split
    · rfl
    · rename_i hkind
      rw [h.resolve_congr h' hread (h.inside_itemSchema hinside hresolved hkind)]
    · rfl

theorem Roomy.tableRoot_congr (h : library.Roomy start references size)
    (h' : library'.Roomy start references size) (hread : library.read = library'.read)
    (hinside : Inside start references size document node) :
    library.tableRoot document node = library'.tableRoot document node := by
  rw [tableRoot, tableRoot, ← h.rowSchema_congr h' hread hinside]
  cases hrow : library.rowSchema document node with
  | error e => rfl
  | ok row =>
    have hbuild : ∀ field : String × String,
        ∀ child ∈ ((properties? row.schema).getD []).map Prod.snd,
        library.buildWithin library.bound field.1 row.document child field.2 [] =
          library'.buildWithin library'.bound field.1 row.document child field.2 [] := by
      intro field child hchild
      rw [← typeChildren_of_object (rowSchema_eq_ok hrow).1] at hchild
      have hbelow := (h.inside_of_rowSchema hinside hrow).part (shrinks_typeChildren _ _ hchild).1
      exact isWalk_buildWithin.congr_of_roomy shrinks_typeChildren h h' hread hbelow field
    simp only [bind, Except.bind]
    rw [buildObject_congr hbuild]

end Roomy

/-! ## Documents among given ones -/

/-- The documents of a library are among some, and a failing read is no circle. -/
structure Drawn (library : Library (Except SchemaError)) (sources : List Json) : Prop where
  mem : ∀ name root, library.read name = .ok root → root ∈ sources
  read_ne : ∀ name chain, library.read name ≠ .error (.circularReference chain)

section Drawn

variable {sources : List Json}

theorem within_of_mem_sources (h : node ∈ sources) :
    node.references ⊆ sources.flatMap Json.references ∧
      node.size ≤ (sources.map Json.size).sum :=
  ⟨fun _ hr => List.mem_flatMap.2 ⟨node, h, hr⟩,
    List.single_le_sum (fun _ _ => Nat.zero_le _) _ (List.mem_map_of_mem h)⟩

theorem inside_of_mem_sources (start : String) (h : node ∈ sources) :
    Inside start (sources.flatMap Json.references) (sources.map Json.size).sum start node :=
  ⟨List.mem_cons_self, (within_of_mem_sources h).1, (within_of_mem_sources h).2⟩

/-- **The bound for the nodes of all documents leaves enough room.** -/
theorem Drawn.roomy (h : library.Drawn sources) (start : String)
    (hbound : boundFor (sources.map Json.size).sum ≤ library.bound) :
    library.Roomy start (sources.flatMap Json.references) (sources.map Json.size).sum := by
  refine ⟨⟨fun name root hread => (within_of_mem_sources (h.mem name root hread)).1,
    fun name root hread => (within_of_mem_sources (h.mem name root hread)).2, h.read_ne⟩,
    lt_of_lt_of_le ?_ hbound⟩
  have hlength : (sources.flatMap Json.references).length ≤ (sources.map Json.size).sum := by
    rw [List.length_flatMap]
    exact List.sum_le_sum fun source _ => source.length_references_le
  have hkeys : (SchemaReference.keys start (sources.flatMap Json.references)).length ≤ _ :=
    SchemaReference.length_keys_le hlength
  generalize (sources.map Json.size).sum = size at hkeys
  calc (SchemaReference.keys start (sources.flatMap Json.references)).length * (size + 1) + size
      ≤ (size + 1) * size * (size + 1) + size := by
        gcongr
    _ < (size + 2) * (size + 2) * (size + 2) := by
        nlinarith
    _ = boundFor size := rfl

end Drawn

/-! ## Fixed documents -/

section Documents

variable {documents : Entries Json}

/-- The references in a node and in documents. -/
def referencesOf (documents : Entries Json) (node : Json) : List String :=
  node.references ++ documents.flatMap fun entry => entry.2.references

theorem size_documents (documents : Entries Json) :
    Documents.size ⟨documents⟩ = (documents.map fun entry => entry.2.size).sum := by
  rw [Documents.size, List.sum_eq_foldl, List.foldl_map]

theorem flatMap_sources (documents : Entries Json) (node : Json) :
    (node :: documents.map Prod.snd).flatMap Json.references = referencesOf documents node := by
  rw [List.flatMap_cons, List.flatMap_map, referencesOf]

theorem sum_sources (documents : Entries Json) (node : Json) :
    ((node :: documents.map Prod.snd).map Json.size).sum =
      Documents.size ⟨documents⟩ + node.size := by
  rw [List.map_cons, List.sum_cons, List.map_map, size_documents, Nat.add_comm]
  rfl

theorem drawn_ofDocuments (documents : Entries Json) (node : Json) (bound : Nat) :
    (ofDocuments documents bound).Drawn (node :: documents.map Prod.snd) where
  mem _ _ hread := List.mem_cons_of_mem _
    (List.mem_map_of_mem (f := Prod.snd) (mem_of_read_ofDocuments hread))
  read_ne := read_ofDocuments_ne_circular documents bound

theorem inside_start (documents : Entries Json) (document : String) (node : Json) :
    Inside document (referencesOf documents node) (Documents.size ⟨documents⟩ + node.size) document
      node := by
  rw [← sum_sources, ← flatMap_sources]
  exact inside_of_mem_sources document List.mem_cons_self

/-- **The bound for the nodes of the documents and the starting node leaves enough room.** -/
theorem roomy_ofDocuments (document : String) {bound : Nat}
    (h : boundFor (Documents.size ⟨documents⟩ + node.size) ≤ bound) :
    (ofDocuments documents bound).Roomy document (referencesOf documents node)
      (Documents.size ⟨documents⟩ + node.size) := by
  rw [← sum_sources] at h ⊢
  rw [← flatMap_sources]
  exact (drawn_ofDocuments documents node bound).roomy document h

/-- **References in fixed documents are handled in finitely many steps, and the circles that are
reported are the real ones.** With a bound for the nodes of the documents and the starting node:

* a larger bound changes nothing, so the recursions end by themselves;
* there is a failure wherever a recursion could go on forever;
* in a document whose name does not read as a reference with a pointer, a circle of references is
  reported exactly when they reach no node without a reference, and the recursions report a circle
  only if they reach a node again below itself. -/
theorem circles_of_references {documents : Entries Json} {document : String} {node : Json}
    {bound : Nat} (hbound : boundFor (Documents.size ⟨documents⟩ + node.size) ≤ bound) :
    (∀ larger, bound ≤ larger →
      (ofDocuments documents larger).resolve document node =
        (ofDocuments documents bound).resolve document node ∧
      (ofDocuments documents larger).inline document node =
        (ofDocuments documents bound).inline document node ∧
      (∀ name, (ofDocuments documents larger).typeNode name document node =
        (ofDocuments documents bound).typeNode name document node) ∧
      (ofDocuments documents larger).tableRoot document node =
        (ofDocuments documents bound).tableRoot document node) ∧
    ((ofDocuments documents bound).Endless inlineChildren ⟨document, node⟩ →
      ∃ e, (ofDocuments documents bound).inline document node = .error e) ∧
    ((ofDocuments documents bound).Endless typeChildren ⟨document, node⟩ →
      (∀ name, ∃ e, (ofDocuments documents bound).typeNode name document node = .error e) ∧
      ∃ e, (ofDocuments documents bound).tableRoot document node = .error e) ∧
    (SchemaReference.PlainName document →
      ((∀ place,
          Relation.ReflTransGen (ofDocuments documents bound).Refers ⟨document, node⟩ place →
          place.node.get? "$ref" = none ∨ ∃ next, (ofDocuments documents bound).Refers place next) →
        ((∃ chain, (ofDocuments documents bound).resolve document node =
            .error (.circularReference chain)) ↔
          ¬ ∃ place,
            Relation.ReflTransGen (ofDocuments documents bound).Refers ⟨document, node⟩ place ∧
            place.node.get? "$ref" = none)) ∧
      (∀ chain, (ofDocuments documents bound).inline document node =
          .error (.circularReference chain) →
        (ofDocuments documents bound).Loops inlineChildren ⟨document, node⟩) ∧
      (∀ name chain, (ofDocuments documents bound).typeNode name document node =
          .error (.circularReference chain) →
        (ofDocuments documents bound).Loops typeChildren ⟨document, node⟩) ∧
      ∀ chain, (ofDocuments documents bound).tableRoot document node =
          .error (.circularReference chain) →
        (ofDocuments documents bound).Loops typeChildren ⟨document, node⟩) := by
  have hinside := inside_start documents document node
  have hroomy := roomy_ofDocuments document hbound
  have hread := hroomy.bounded.read_ne
  refine ⟨fun larger hlarger => ?_, fun hendless => ?_, fun hendless => ⟨fun name => ?_, ?_⟩,
    fun hplain => ⟨?_, fun chain h => ?_, fun name chain h => ?_, fun chain h => ?_⟩⟩
  · have hroomy' := roomy_ofDocuments document (hbound.trans hlarger)
    exact ⟨hroomy'.resolve_congr hroomy rfl hinside,
      isWalk_inlineWithin.congr_of_roomy shrinks_inlineChildren hroomy' hroomy rfl hinside (),
      fun name => isWalk_buildWithin.congr_of_roomy shrinks_typeChildren hroomy' hroomy rfl hinside
        (name, name),
      hroomy'.tableRoot_congr hroomy rfl hinside⟩
  · exact exists_error fun inlined hinline => isWalk_inlineWithin.not_endless () hinline hendless
  · exact exists_error fun tree htype =>
      isWalk_buildWithin.not_endless (name, name) htype hendless
  · exact exists_error fun root hroot => not_endless_of_tableRoot hroot hendless
  · exact resolve_circular_iff hplain hread (hroomy.genuine_resolve hinside)
  · exact isWalk_inlineWithin.loops () hplain hread (Or.inr rfl) h
      (isWalk_inlineWithin.genuine_of_roomy shrinks_inlineChildren hroomy hinside () chain h)
  · exact isWalk_buildWithin.loops (name, name) hplain hread (Or.inr rfl) h
      (isWalk_buildWithin.genuine_of_roomy shrinks_typeChildren hroomy hinside (name, name) chain h)
  · exact loops_of_tableRoot hplain hread (Or.inr rfl) h
      (hroomy.genuine_tableRoot hinside chain h)

/-- A list and what follows in it, which refer to each other. -/
def listDocuments : Entries Json :=
  [("list", .obj [("items", .obj [("$ref", .str "more")])]),
    ("more", .obj [("properties", .obj [("rest", .obj [("$ref", .str "list")])])])]

/-- A reference to the list. -/
def listReference : Json := .obj [("$ref", .str "list")]

theorem circles_of_lists :
    boundFor (Documents.size ⟨listDocuments⟩ + listReference.size) ≤ 1331 ∧
    SchemaReference.PlainName "list" ∧
    (∀ larger, 1331 ≤ larger → (ofDocuments listDocuments larger).inline "list" listReference =
      .error (.circularReference ["list#", "more#", "list#"])) ∧
    ((∃ chain, (ofDocuments listDocuments 1331).resolve "list" listReference =
        .error (.circularReference chain)) ↔
      ¬ ∃ place, Relation.ReflTransGen (ofDocuments listDocuments 1331).Refers
        ⟨"list", listReference⟩ place ∧ place.node.get? "$ref" = none) ∧
    (ofDocuments listDocuments 1331).Loops inlineChildren ⟨"list", listReference⟩ ∧
    (ofDocuments listDocuments 1331).Loops typeChildren ⟨"list", listReference⟩ ∧
    (∃ e, (ofDocuments listDocuments 1331).inline "list" listReference = .error e) ∧
    ∃ e, (ofDocuments listDocuments 1331).tableRoot "list" listReference = .error e := by
  have hbound : boundFor (Documents.size ⟨listDocuments⟩ + listReference.size) ≤ 1331 := by decide
  have hplain : SchemaReference.PlainName "list" := by
    intro target pointer h
    cases h
    rfl
  have hrefers : (ofDocuments listDocuments 1331).Refers ⟨"list", listReference⟩
      ⟨"list", .obj [("items", .obj [("$ref", .str "more")])]⟩ :=
    ⟨"list", "list", "", rfl, rfl, rfl, _, rfl, rfl⟩
  obtain ⟨hlarger, hinline, htype, hplace⟩ := @circles_of_references _ "list" _ _ hbound
  obtain ⟨hresolve, hloops, -, hloops'⟩ := hplace hplain
  have hinlined := hloops ["list#", "more#", "list#"] rfl
  have htyped := hloops' ["list#", "more#", "list#"] rfl
  exact ⟨hbound, hplain, fun larger h => (hlarger larger h).2.1,
    hresolve fun place => refers_of_ends (Relation.ReflTransGen.single hrefers) rfl,
    hinlined, htyped, hinline hinlined.endless, (htype htyped.endless).2⟩

/-- A document whose name reads as a reference, and the document that it seems to be in. -/
def hashDocuments : Entries Json :=
  [("x#/y", .obj [("$ref", .str "x#/y#")]), ("x", .obj [("y#", .obj [("type", .str "string")])])]

/-- The two places `x#/y` and `#`, and `x` and `#/y#`, have the same key. -/
theorem resolve_hashDocuments :
    boundFor (Documents.size ⟨hashDocuments⟩ + (Json.obj [("$ref", .str "#")]).size) = 729 ∧
    (∀ place, Relation.ReflTransGen (ofDocuments hashDocuments 729).Refers
        ⟨"x#/y", .obj [("$ref", .str "#")]⟩ place →
      place.node.get? "$ref" = none ∨ ∃ next, (ofDocuments hashDocuments 729).Refers place next) ∧
    (∃ place, Relation.ReflTransGen (ofDocuments hashDocuments 729).Refers
        ⟨"x#/y", .obj [("$ref", .str "#")]⟩ place ∧ place.node.get? "$ref" = none) ∧
    (ofDocuments hashDocuments 729).resolve "x#/y" (.obj [("$ref", .str "#")]) =
      .error (.circularReference ["x#/y#", "x#/y#"]) := by
  have hfirst : (ofDocuments hashDocuments 729).Refers ⟨"x#/y", .obj [("$ref", .str "#")]⟩
      ⟨"x#/y", .obj [("$ref", .str "x#/y#")]⟩ :=
    ⟨"#", "", "", rfl, rfl, rfl, _, rfl, rfl⟩
  have hsecond : (ofDocuments hashDocuments 729).Refers ⟨"x#/y", .obj [("$ref", .str "x#/y#")]⟩
      ⟨"x", .obj [("type", .str "string")]⟩ :=
    ⟨"x#/y#", "x", "/y#", rfl, rfl, rfl, _, rfl, rfl⟩
  have hway := (Relation.ReflTransGen.single hfirst).tail hsecond
  exact ⟨rfl, fun place => refers_of_ends hway rfl, ⟨_, hway, rfl⟩, rfl⟩

end Documents

end Library

end TableExport
