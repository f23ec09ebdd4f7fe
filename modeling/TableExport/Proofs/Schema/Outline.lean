import TableExport.Proofs.Schema.Building
import TableExport.Validation.RowSet

/-!
# Type trees of inlined schemas

What is extracted follows the type tree of a schema, and what is validated follows the inlined
schema. Both are walks along references of their own; here they are shown to see the same table.

* `TypeTree.outline` is what extraction looks at in a type tree: names, arrays, members and types.
* `buildWithin_inlineWithin`: a schema and what it is inlined to have the same outline, if any.
* `tableRoot_inline`: this holds of tables, and the schema of the rows describes the same members.
-/

namespace TableExport

/-! ## Outlines -/

namespace TypeTree

mutual

/-- A type tree with nothing but the names, the arrays, the members and the types. -/
def outline : TypeTree → TypeTree
  | .leaf field type => .leaf { name := field.name, isArray := field.isArray } type
  | .composite field members =>
    .composite { name := field.name, isArray := field.isArray } (outlineAll members)

/-- The outlines of some trees. -/
def outlineAll : List TypeTree → List TypeTree
  | [] => []
  | member :: rest => member.outline :: outlineAll rest

end

theorem outlineAll_eq_map (members : List TypeTree) : outlineAll members = members.map outline := by
  induction members with
  | nil => rw [outlineAll, List.map_nil]
  | cons member rest ih => rw [outlineAll, ih, List.map_cons]

@[simp] theorem name_outline (tree : TypeTree) : tree.outline.name = tree.name := by
  cases tree <;> rw [outline] <;> rfl

@[simp] theorem isArray_outline (tree : TypeTree) : tree.outline.isArray = tree.isArray := by
  cases tree <;> rw [outline] <;> rfl

theorem outline_withField (tree : TypeTree) (field : Field) :
    (tree.withField field).outline =
      tree.outline.withField { name := field.name, isArray := field.isArray } := by
  cases tree <;> rw [withField, outline, outline, withField]

theorem outline_eq_withField (tree : TypeTree) :
    tree.outline = tree.outline.withField { name := tree.name, isArray := tree.isArray } := by
  cases tree <;> rw [outline] <;> rfl

end TypeTree

/-- Two ways to make something fail both or make related things. -/
inductive Agree {ε α β : Type} (R : α → β → Prop) : Except ε α → Except ε β → Prop
  | error (e e' : ε) : Agree R (.error e) (.error e')
  | ok {a : α} {b : β} : R a b → Agree R (.ok a) (.ok b)

/-- What goes on from agreement agrees. -/
theorem Agree.bind {ε α β α' β' : Type} {R : α → β → Prop} {S : α' → β' → Prop}
    {first : Except ε α} {second : Except ε β} {f : α → Except ε α'} {g : β → Except ε β'}
    (h : Agree R first second) (hnext : ∀ a b, R a b → Agree S (f a) (g b)) :
    Agree S (first >>= f) (second >>= g) := by
  cases h with
  | error e e' => exact Agree.error e e'
  | ok hab => exact hnext _ _ hab

theorem Agree.exists_ok_iff {ε α β : Type} {R : α → β → Prop} {first : Except ε α}
    {second : Except ε β} (h : Agree R first second) :
    (∃ a, first = .ok a) ↔ ∃ b, second = .ok b := by
  cases h with
  | error e e' => simp
  | ok hab => simp

theorem Agree.of_ok {ε α β : Type} {R : α → β → Prop} {a : α} {b : β}
    (h : Agree R (.ok a : Except ε α) (.ok b)) : R a b := by
  cases h with
  | ok hab => exact hab

/-- Two trees that extraction cannot tell apart. -/
def SameOutline (first second : TypeTree) : Prop := first.outline = second.outline

theorem SameOutline.names_eq {first second : TypeTree} (h : SameOutline first second) :
    second.members.map TypeTree.name = first.members.map TypeTree.name := by
  have hnames : ∀ tree : TypeTree,
      tree.members.map TypeTree.name = tree.outline.members.map TypeTree.name := by
    intro tree
    cases tree with
    | leaf field type =>
      rw [TypeTree.outline]
      rfl
    | composite field members =>
      rw [TypeTree.outline, TypeTree.members, TypeTree.members, TypeTree.outlineAll_eq_map,
        List.map_map]
      exact List.map_congr_left fun member _ => (TypeTree.name_outline member).symm
  rw [hnames, hnames first, h]

namespace Library

variable {library : Library (Except SchemaError)}

/-! ## Parts of a type tree -/

theorem outline_describe (node : TypeTree) (resolved : Resolved) :
    (describe node resolved).outline = node.outline := by
  rw [describe, TypeTree.outline_withField, TypeTree.outline_eq_withField node]
  cases node <;> rfl

theorem agree_arrayOf {element element' : TypeTree} (h : SameOutline element element')
    (schema schema' : Json) (path path' : String) :
    Agree SameOutline (arrayOf element schema path : Except SchemaError TypeTree)
      (arrayOf element' schema' path') := by
  have harray : element.isArray = element'.isArray := by
    rw [← TypeTree.isArray_outline, h, TypeTree.isArray_outline]
  have hname : element.name = element'.name := by
    rw [← TypeTree.name_outline, h, TypeTree.name_outline]
  rw [arrayOf, arrayOf, ← harray]
  by_cases hnested : element.isArray = true
  · rw [if_pos hnested, if_pos hnested]
    exact Agree.error _ _
  · rw [if_neg hnested, if_neg hnested]
    apply Agree.ok
    rw [SameOutline, TypeTree.outline_withField, TypeTree.outline_withField, h]
    exact congrArg (fun name => element'.outline.withField { name, isArray := true }) hname

/-- Named schemas for which two ways to build a tree agree. -/
def MembersAgree (build build' : String → Json → String → Except SchemaError TypeTree)
    (members members' : List (String × Json)) : Prop :=
  List.Forall₂ (fun member member' => member.1 = member'.1 ∧
    ∀ path, Agree SameOutline (build member.1 member.2 path) (build' member'.1 member'.2 path))
    members members'

variable {build build' : String → Json → String → Except SchemaError TypeTree}

theorem agree_buildMembers {path : String} {members members' : List (String × Json)}
    (h : MembersAgree build build' members members') :
    Agree (fun trees trees' => TypeTree.outlineAll trees = TypeTree.outlineAll trees')
      (buildMembers build path members) (buildMembers build' path members') := by
  induction h with
  | nil => exact Agree.ok rfl
  | @cons member member' rest rest' hmember _ ih =>
    obtain ⟨name, schema⟩ := member
    obtain ⟨name', schema'⟩ := member'
    obtain ⟨rfl, hbuild⟩ := hmember
    rw [buildMembers, buildMembers]
    refine (hbuild (TypeTree.joinPath path name)).bind fun tree tree' htree => ?_
    refine ih.bind fun trees trees' htrees => Agree.ok ?_
    rw [TypeTree.outlineAll, TypeTree.outlineAll, htree, htrees]

theorem agree_buildObject {name path : String} {schema schema' : Json}
    (h : Option.Rel (MembersAgree build build') (properties? schema) (properties? schema')) :
    Agree SameOutline (buildObject build name schema path)
      (buildObject build' name schema' path) := by
  rw [buildObject.eq_def, buildObject.eq_def]
  generalize properties? schema = found?, properties? schema' = found'? at h
  cases h with
  | none => exact Agree.error _ _
  | some hmembers =>
    refine (agree_buildMembers hmembers).bind fun trees trees' htrees => Agree.ok ?_
    rw [SameOutline, TypeTree.outline, TypeTree.outline, htrees]

/-- The composites of a schema and of what it is inlined to agree when the trees of their
properties do. -/
theorem agree_buildObject_of_inlines {change : Json → Except SchemaError Json} {name path : String}
    {schema inlined : Json} (hinlines : Inlines change schema inlined)
    (h : ∀ name value value' path, change value = .ok value' →
      Agree SameOutline (build name value path) (build' name value' path)) :
    Agree SameOutline (buildObject build name schema path)
      (buildObject build' name inlined path) := by
  apply agree_buildObject
  have hproperties := hinlines.properties?
  generalize properties? schema = found?, properties? inlined = found'? at hproperties
  cases hproperties with
  | none => exact Option.Rel.none
  | some hmembers =>
    refine Option.Rel.some (hmembers.imp fun member member' hmember => ⟨hmember.1, ?_⟩)
    intro path
    rw [hmember.1]
    exact h _ _ _ path hmember.2

/-! ## The tree of an inlined node -/

/-- **A node and what it is inlined to have the same type tree**, up to what their schemas say
beside the types, or neither has one. The walk for the node may have fewer nodes active than the
inlining, and the inlined node needs no documents. -/
theorem buildWithin_inlineWithin {depth fuel : Nat} {document other : String}
    {node inlined : Json} {active active' active'' : List String}
    (h : library.inlineWithin depth document node active = .ok inlined) (hle : depth ≤ fuel)
    (hsub : active' ⊆ active) (name path : String) :
    Agree SameOutline (library.buildWithin fuel name document node path active')
      (library.buildWithin fuel name other inlined path active'') := by
  induction depth generalizing fuel document node inlined active active' active'' name path with
  | zero => cases h
  | succ depth ih =>
    obtain ⟨resolved, henter, hinlines⟩ := inlineWithin_eq_ok h
    obtain ⟨fuel, rfl⟩ : ∃ rest, fuel = rest + 1 := ⟨fuel - 1, by omega⟩
    have href := hinlines.get?_ref (get?_ref_of_resolve (enter_eq_ok.1 henter).1)
    have henter' : library.enter other inlined active'' = .ok ⟨other, inlined, none, []⟩ :=
      enter_eq_ok.2 ⟨resolve_of_get?_eq_none href other, fun _ hk => by cases hk⟩
    have hsub' : active' ++ resolved.chain ⊆ active ++ resolved.chain :=
      List.append_subset.2 ⟨fun _ hk => List.mem_append_left _ (hsub hk),
        List.subset_append_right _ _⟩
    rw [buildWithin, buildWithin, enter_of_subset henter hsub, henter']
    simp only [bind, Except.bind, hinlines.schemaKind?_eq]
    split
    · refine Agree.bind ?_ fun element element' helement => agree_arrayOf helement _ _ _ _
      rcases hinlines.itemSchema with hitems | ⟨hitems, hitems'⟩
      · exact ih hitems (by omega) hsub' name path
      · obtain ⟨e, he⟩ := exists_error_buildWithin library hitems fuel name
          resolved.document path (active' ++ resolved.chain)
        obtain ⟨e', he'⟩ := exists_error_buildWithin library hitems' fuel name
          other path (active'' ++ [])
        rw [he, he']
        exact Agree.error e e'
    · refine Agree.bind (agree_buildObject_of_inlines hinlines ?_) fun node node' hnode =>
        Agree.ok ?_
      · exact fun name value value' path hvalue => ih hvalue (by omega) hsub' name path
      · rw [SameOutline, outline_describe, outline_describe]
        exact hnode
    · split
      · refine Agree.ok ?_
        rw [SameOutline, outline_describe, outline_describe]
      · exact Agree.error _ _
    · exact Agree.error _ _

/-! ## Tables -/

/-- **The rows of a table whose schema has no reference are the items of the schema of its
rows.** -/
theorem rowSetSchema_of_rowSchema {document : String} {schema : Json} {row : Resolved}
    (href : schema.get? "$ref" = none) (h : library.rowSchema document schema = .ok row) :
    schemaKind? (rowSetSchema schema) = some "array" ∧
      library.resolve document (itemSchema (rowSetSchema schema)) = .ok row ∧
      schemaKind? row.schema = some "object" := by
  rw [rowSchema, resolve_of_get?_eq_none href] at h
  simp only [bind, Except.bind] at h
  split at h
  · rename_i hkind
    cases h
    rw [rowSetSchema, if_pos hkind]
    refine ⟨rfl, ?_, hkind⟩
    exact resolve_of_get?_eq_none href document
  · rename_i hkind
    rw [rowSetSchema, if_neg (by rw [hkind]; decide)]
    obtain ⟨items, hitems, h⟩ := bind_eq_ok.1 h
    split at h
    · rename_i hitemKind
      cases h
      exact ⟨hkind, hitems, hitemKind⟩
    · cases h
  · cases h

/-- The schemas of the rows of a node and of what it is inlined to. -/
theorem agree_rowSchema (other : String) {document : String} {node inlined : Json}
    (h : library.inline document node = .ok inlined) :
    inlined.get? "$ref" = none ∧
    Agree (fun row row' : Resolved => ∃ depth active, depth ≤ library.bound ∧
        Inlines (fun child => library.inlineWithin depth row.document child active) row.schema
          row'.schema ∧ row'.document = other)
      (library.rowSchema document node) (library.rowSchema other inlined) := by
  obtain ⟨depth, resolved, hbound, hresolve, hinlines⟩ := inline_eq_ok h
  have href := hinlines.get?_ref (get?_ref_of_resolve hresolve)
  refine ⟨href, ?_⟩
  rw [rowSchema, rowSchema, hresolve, resolve_of_get?_eq_none href]
  simp only [bind, Except.bind, hinlines.schemaKind?_eq]
  split
  · exact Agree.ok ⟨depth, _, by omega, hinlines, rfl⟩
  · rcases hinlines.itemSchema with hitems | ⟨hitems, hitems'⟩
    · cases depth with
      | zero => cases hitems
      | succ depth =>
        obtain ⟨items, henter', hinlines'⟩ := inlineWithin_eq_ok hitems
        have hresolve' := (enter_eq_ok.1 henter').1
        rw [hresolve', resolve_of_get?_eq_none (hinlines'.get?_ref (get?_ref_of_resolve hresolve'))]
        simp only [hinlines'.schemaKind?_eq]
        split
        · exact Agree.ok ⟨depth, _, by omega, hinlines', rfl⟩
        · exact Agree.error _ _
    · rw [resolve_of_get?_eq_none (get?_of_obj?_eq_none hitems "$ref"),
        resolve_of_get?_eq_none (get?_of_obj?_eq_none hitems' "$ref")]
      simp only [schemaKind?_of_obj?_eq_none hitems, schemaKind?_of_obj?_eq_none hitems']
      exact Agree.error _ _
  · exact Agree.error _ _

/-- The roots of a node and of what it is inlined to agree. -/
theorem agree_tableRoot (other : String) {document : String} {node inlined : Json}
    (h : library.inline document node = .ok inlined) :
    Agree SameOutline (library.tableRoot document node) (library.tableRoot other inlined) := by
  rw [tableRoot, tableRoot]
  refine (agree_rowSchema other h).2.bind fun row row' hrow => ?_
  obtain ⟨depth, active, hle, hinlines, -⟩ := hrow
  refine Agree.bind (agree_buildObject_of_inlines hinlines ?_) fun root root' hroot => Agree.ok ?_
  · exact fun name value value' path hvalue =>
      buildWithin_inlineWithin hvalue hle (List.nil_subset _) name path
  · have hname : root.name = root'.name := by
      rw [← TypeTree.name_outline, hroot, TypeTree.name_outline]
    rw [SameOutline, TypeTree.outline_withField, TypeTree.outline_withField, hroot]
    exact congrArg (fun name => root'.outline.withField { name, isArray := true }) hname

/-- **A table and what its schema is inlined to are the same table.** One has a type tree when the
other does, the two have the same names, arrays, members and types, and the schema of the rows of
the inlined one is that of an array of objects with the members of the table as properties. -/
theorem tableRoot_inline {document other : String} {node inlined : Json}
    (h : library.inline document node = .ok inlined) :
    ((∃ root, library.tableRoot document node = .ok root) ↔
      ∃ root, library.tableRoot other inlined = .ok root) ∧
    (∀ root root', library.tableRoot document node = .ok root →
      library.tableRoot other inlined = .ok root' → root.outline = root'.outline) ∧
    ∀ root, library.tableRoot document node = .ok root →
      schemaKind? (rowSetSchema inlined) = some "array" ∧
      ∃ rows properties,
        library.resolve other (itemSchema (rowSetSchema inlined)) = .ok rows ∧
        schemaKind? rows.schema = some "object" ∧ properties? rows.schema = some properties ∧
        properties.keys = root.members.map TypeTree.name := by
  have hagree := agree_tableRoot other h
  refine ⟨hagree.exists_ok_iff, fun root root' hroot hroot' => ?_, fun root hroot => ?_⟩
  · rw [hroot, hroot'] at hagree
    exact hagree.of_ok
  · obtain ⟨root', hroot'⟩ := hagree.exists_ok_iff.1 ⟨root, hroot⟩
    rw [hroot, hroot'] at hagree
    obtain ⟨row, properties, hrow, hproperties, hnames⟩ := names_tableRoot hroot'
    obtain ⟨hkind, hresolve, hrowKind⟩ :=
      rowSetSchema_of_rowSchema (agree_rowSchema other h).1 hrow
    refine ⟨hkind, row, properties, hresolve, hrowKind, hproperties, ?_⟩
    rw [hnames, SameOutline.names_eq hagree.of_ok]

/-- The documents of an item that may be missing and has tags of a type of their own. -/
def itemDocuments : Entries Json :=
  [("item", .obj [("type", .arr [.str "null", .str "object"]),
      ("properties", .obj [("id", .obj [("type", .str "integer")]),
        ("tags", .obj [("items", .obj [("$ref", .str "common#/definitions/tag")])])])]),
    ("common", .obj [("definitions", .obj [("tag", .obj [("type", .str "string")])])])]

/-- A table of items, inlined. -/
def inlinedItems : Json :=
  .obj [("items", .obj [("type", .arr [.str "null", .str "object"]),
    ("properties", .obj [("id", .obj [("type", .str "integer")]),
      ("tags", .obj [("items", .obj [("type", .str "string")])])])])]

theorem tableRoot_inline_items :
    ((∃ root, (ofDocuments itemDocuments 5).tableRoot "items"
        (.obj [("items", .obj [("$ref", .str "item")])]) = .ok root) ↔
      ∃ root, (ofDocuments itemDocuments 5).tableRoot "" inlinedItems = .ok root) ∧
    (∀ root root', (ofDocuments itemDocuments 5).tableRoot "items"
        (.obj [("items", .obj [("$ref", .str "item")])]) = .ok root →
      (ofDocuments itemDocuments 5).tableRoot "" inlinedItems = .ok root' →
      root.outline = root'.outline) ∧
    ∀ root, (ofDocuments itemDocuments 5).tableRoot "items"
        (.obj [("items", .obj [("$ref", .str "item")])]) = .ok root →
      schemaKind? (rowSetSchema inlinedItems) = some "array" ∧
      ∃ rows properties,
        (ofDocuments itemDocuments 5).resolve "" (itemSchema (rowSetSchema inlinedItems)) =
          .ok rows ∧
        schemaKind? rows.schema = some "object" ∧ properties? rows.schema = some properties ∧
        properties.keys = root.members.map TypeTree.name :=
  tableRoot_inline (show (ofDocuments itemDocuments 5).inline "items" _ = .ok inlinedItems from rfl)

end Library

end TableExport
