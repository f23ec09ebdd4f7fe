import TableExport.Proofs.Schema.Inlining

/-!
# What typing makes of a schema

Typing a node resolves it and then makes its tree by the kind that the schema declares
(`made_of_buildWithin`, and `buildWithin_eq_ok` without the attributes of the node): that of an
array from the tree of its items, that of an object from the trees of its properties, which keep
their names and their order (`names_buildMembers`, `find?_of_buildMembers`). The root of a table is
made from the properties of its rows (`tableRoot_eq_ok`).
-/

namespace TableExport

namespace TypeTree

@[simp] theorem field_withField (tree : TypeTree) (field : Field) :
    (tree.withField field).field = field := by
  cases tree <;> rfl

@[simp] theorem withField_withField (tree : TypeTree) (field field' : Field) :
    (tree.withField field).withField field' = tree.withField field' := by
  cases tree <;> rfl

@[simp] theorem name_withField (tree : TypeTree) (field : Field) :
    (tree.withField field).name = field.name := by
  cases tree <;> rfl

@[simp] theorem isArray_withField (tree : TypeTree) (field : Field) :
    (tree.withField field).isArray = field.isArray := by
  cases tree <;> rfl

end TypeTree

namespace Library

variable {library : Library (Except SchemaError)}
  {build : String → Json → String → Except SchemaError TypeTree}

/-! ## Nodes -/

theorem buildObject_eq_ok {name path : String} {schema : Json} {tree : TypeTree}
    (h : buildObject build name schema path = .ok tree) :
    ∃ properties members, properties? schema = some properties ∧
      buildMembers build path properties = .ok members ∧
      tree = .composite
        { name, isStruct := ((schema.get? "x-struct").bind Json.bool?).getD false } members := by
  rw [buildObject.eq_def] at h
  cases hfound : properties? schema with
  | none =>
    rw [hfound] at h
    cases h
  | some properties =>
    rw [hfound] at h
    obtain ⟨members, hmembers, h⟩ := bind_eq_ok.1 h
    cases h
    exact ⟨properties, members, rfl, hmembers, rfl⟩

/-- What typing makes of a node without a reference, in full, where `build` makes the trees of the
nodes below for their names and paths. -/
inductive Made (build : String × String → Json → Except SchemaError TypeTree)
    (field : String × String) (resolved : Resolved) : TypeTree → Prop
  | array {element : TypeTree} : schemaKind? resolved.schema = some "array" →
    build field (itemSchema resolved.schema) = .ok element → element.isArray = false →
    Made build field resolved (element.withField { element.field with
      isArray := true
      description := (description? resolved.schema).or element.field.description })
  | object {properties : Entries Json} {members : List TypeTree} :
    schemaKind? resolved.schema = some "object" →
    properties? resolved.schema = some properties →
    buildMembers (fun name schema path => build (name, path) schema) field.2 properties =
      .ok members →
    Made build field resolved (describe (.composite
      { name := field.1
        isStruct := ((resolved.schema.get? "x-struct").bind Json.bool?).getD false } members)
      resolved)
  | leaf {kind : String} {type : ScalarType} : schemaKind? resolved.schema = some kind →
    ScalarType.ofName? kind = some type →
    Made build field resolved (describe (.leaf { name := field.1 } type) resolved)

/-- **Typing resolves a node and makes what its schema says.** -/
theorem made_of_buildWithin {depth : Nat} {name document path : String} {schema : Json}
    {active : List String} {tree : TypeTree}
    (h : library.buildWithin depth name document schema path active = .ok tree) :
    ∃ below resolved, depth = below + 1 ∧ library.enter document schema active = .ok resolved ∧
      Made (fun field child => library.buildWithin below field.1 resolved.document child field.2
        (active ++ resolved.chain)) (name, path) resolved tree := by
  cases depth with
  | zero => cases h
  | succ below =>
    obtain ⟨resolved, henter, h⟩ := bind_eq_ok.1 h
    refine ⟨below, resolved, rfl, henter, ?_⟩
    simp only at h
    split at h
    · rename_i hkind
      obtain ⟨element, helement, h⟩ := bind_eq_ok.1 h
      rw [arrayOf] at h
      split at h
      · cases h
      · rename_i harray
        cases h
        exact Made.array hkind helement (Bool.eq_false_iff.2 harray)
    · rename_i hkind
      obtain ⟨node, hnode, h⟩ := bind_eq_ok.1 h
      obtain ⟨properties, members, hproperties, hmembers, rfl⟩ := buildObject_eq_ok hnode
      cases h
      exact Made.object hkind hproperties hmembers
    · rename_i kind _ _ hkind
      split at h
      · rename_i type htype
        cases h
        exact Made.leaf hkind htype
      · cases h
    · cases h

/-- What typing makes of a node without a reference, where `build` makes the trees of the nodes
below. -/
inductive Builds (build : String → Json → String → Except SchemaError TypeTree) (name : String)
    (schema : Json) (path : String) : TypeTree → Prop
  | array {element : TypeTree} {field : Field} : schemaKind? schema = some "array" →
    build name (itemSchema schema) path = .ok element → element.isArray = false →
    field.name = element.name → field.isArray = true →
    Builds build name schema path (element.withField field)
  | object {properties : Entries Json} {members : List TypeTree} {field : Field} :
    schemaKind? schema = some "object" → properties? schema = some properties →
    buildMembers build path properties = .ok members → field.name = name →
    field.isArray = false → Builds build name schema path (.composite field members)
  | leaf {kind : String} {type : ScalarType} {field : Field} : schemaKind? schema = some kind →
    ScalarType.ofName? kind = some type → field.name = name → field.isArray = false →
    Builds build name schema path (.leaf field type)

theorem Builds.exists_kind {name path : String} {schema : Json} {tree : TypeTree}
    (h : Builds build name schema path tree) : ∃ kind, schemaKind? schema = some kind := by
  cases h with
  | array hkind => exact ⟨_, hkind⟩
  | object hkind => exact ⟨_, hkind⟩
  | leaf hkind => exact ⟨_, hkind⟩

/-- The same without the attributes of the node. -/
theorem buildWithin_eq_ok {depth : Nat} {name document path : String} {schema : Json}
    {active : List String} {tree : TypeTree}
    (h : library.buildWithin (depth + 1) name document schema path active = .ok tree) :
    ∃ resolved, library.enter document schema active = .ok resolved ∧
      Builds (fun name schema path => library.buildWithin depth name resolved.document schema path
        (active ++ resolved.chain)) name resolved.schema path tree := by
  obtain ⟨below, resolved, hdepth, henter, hmade⟩ := made_of_buildWithin h
  cases hdepth
  refine ⟨resolved, henter, ?_⟩
  cases hmade with
  | array hkind helement hflat => exact Builds.array hkind helement hflat rfl rfl
  | object hkind hproperties hmembers => exact Builds.object hkind hproperties hmembers rfl rfl
  | leaf hkind htype => exact Builds.leaf hkind htype rfl rfl

/-- What is no object has no type tree. -/
theorem exists_error_buildWithin (library : Library (Except SchemaError)) {schema : Json}
    (h : schema.obj? = none) (fuel : Nat) (name document path : String) (active : List String) :
    ∃ e, library.buildWithin fuel name document schema path active = .error e := by
  cases fuel with
  | zero => exact ⟨_, rfl⟩
  | succ fuel =>
    have henter : library.enter document schema active = .ok ⟨document, schema, none, []⟩ :=
      enter_eq_ok.2 ⟨resolve_of_get?_eq_none (get?_of_obj?_eq_none h "$ref") document,
        fun _ hk => by cases hk⟩
    refine ⟨.unknownKind path "untyped", ?_⟩
    rw [buildWithin, henter]
    simp only [bind, Except.bind, schemaKind?_of_obj?_eq_none h]
    rfl

/-- A tree has the name that it is built with. -/
theorem name_buildWithin {fuel : Nat} {name document path : String} {schema : Json}
    {active : List String} {tree : TypeTree}
    (h : library.buildWithin fuel name document schema path active = .ok tree) :
    tree.name = name := by
  induction fuel generalizing document schema active tree with
  | zero => cases h
  | succ fuel ih =>
    obtain ⟨resolved, -, hbuilds⟩ := buildWithin_eq_ok h
    cases hbuilds with
    | array _ helement _ hname _ => rw [TypeTree.name_withField, hname, ih helement]
    | object _ _ _ hname _ => exact hname
    | leaf _ _ hname _ => exact hname

/-! ## Members -/

theorem names_buildMembers
    (hbuild : ∀ name schema path tree, build name schema path = .ok tree → tree.name = name)
    {path : String} {properties : List (String × Json)} {members : List TypeTree}
    (h : buildMembers build path properties = .ok members) :
    members.map TypeTree.name = Entries.keys properties := by
  induction properties generalizing members with
  | nil =>
    cases h
    rfl
  | cons property rest ih =>
    obtain ⟨name, schema⟩ := property
    rw [buildMembers] at h
    obtain ⟨member, hmember, h⟩ := bind_eq_ok.1 h
    obtain ⟨others, hothers, h⟩ := bind_eq_ok.1 h
    cases h
    rw [List.map_cons, hbuild name schema _ member hmember, ih hothers]
    rfl

/-- The tree of a property is the first member with its name. -/
theorem find?_of_buildMembers
    (hbuild : ∀ name schema path tree, build name schema path = .ok tree → tree.name = name)
    {path : String} {properties : Entries Json} {members : List TypeTree}
    (h : buildMembers build path properties = .ok members) {name : String} {child : Json}
    (hchild : properties.get? name = some child) :
    ∃ member, members.find? (·.name == name) = some member ∧
      build name child (TypeTree.joinPath path name) = .ok member := by
  induction properties generalizing members with
  | nil => cases hchild
  | cons property rest ih =>
    obtain ⟨own, schema⟩ := property
    rw [buildMembers] at h
    obtain ⟨member, hmember, h⟩ := bind_eq_ok.1 h
    obtain ⟨others, hothers, h⟩ := bind_eq_ok.1 h
    cases h
    have hown := hbuild own schema _ member hmember
    by_cases hname : own = name
    · subst hname
      rw [Entries.get?_cons_self] at hchild
      cases hchild
      exact ⟨member, List.find?_cons_of_pos (by simpa using hown), hmember⟩
    · rw [Entries.get?_cons_of_ne hname] at hchild
      obtain ⟨found, hfound, hbuilt⟩ := ih hothers hchild
      refine ⟨found, ?_, hbuilt⟩
      rw [List.find?_cons_of_neg (by simpa [hown] using hname)]
      exact hfound

/-- A member of an object is built for one of its properties. -/
theorem exists_of_mem_buildMembers {path : String} {properties : List (String × Json)}
    {members : List TypeTree}
    (h : buildMembers build path properties = .ok members) {member : TypeTree}
    (hmember : member ∈ members) :
    ∃ property ∈ properties, ∃ path, build property.1 property.2 path = .ok member := by
  induction properties generalizing members with
  | nil =>
    cases h
    cases hmember
  | cons property rest ih =>
    obtain ⟨name, schema⟩ := property
    obtain ⟨first, hfirst, h⟩ := bind_eq_ok.1 h
    obtain ⟨others, hothers, h⟩ := bind_eq_ok.1 h
    cases h
    rcases List.mem_cons.1 hmember with rfl | hmember
    · exact ⟨_, List.mem_cons_self, _, hfirst⟩
    · obtain ⟨found, hfound, hbuilt⟩ := ih hothers hmember
      exact ⟨found, List.mem_cons_of_mem _ hfound, hbuilt⟩

/-! ## Tables -/

/-- A row is what the schema of the table is resolved to, or its items are. -/
theorem rowSchema_eq_ok {row : Resolved} (h : library.rowSchema document node = .ok row) :
    schemaKind? row.schema = some "object" ∧
      ∃ resolved, library.resolve document node = .ok resolved ∧
        (row = resolved ∨ schemaKind? resolved.schema = some "array" ∧
          library.resolve resolved.document (itemSchema resolved.schema) = .ok row) := by
  rw [rowSchema] at h
  obtain ⟨resolved, hresolved, h⟩ := bind_eq_ok.1 h
  split at h
  · rename_i hkind
    cases h
    exact ⟨hkind, row, hresolved, Or.inl rfl⟩
  · rename_i hkind
    obtain ⟨items, hitems, h⟩ := bind_eq_ok.1 h
    split at h
    · rename_i hitemKind
      cases h
      exact ⟨hitemKind, resolved, hresolved, Or.inr ⟨hkind, hitems⟩⟩
    · cases h
  · cases h

/-- The root of a table is built from the properties of its rows. -/
theorem tableRoot_eq_ok {document : String} {schema : Json} {root : TypeTree}
    (h : library.tableRoot document schema = .ok root) :
    ∃ row properties members field, library.rowSchema document schema = .ok row ∧
      properties? row.schema = some properties ∧
      buildMembers (fun name schema path =>
        library.buildWithin library.bound name row.document schema path []) "" properties =
          .ok members ∧
      root = .composite field members := by
  rw [tableRoot] at h
  obtain ⟨row, hrow, h⟩ := bind_eq_ok.1 h
  obtain ⟨tree, htree, h⟩ := bind_eq_ok.1 h
  obtain ⟨properties, members, hproperties, hmembers, rfl⟩ := buildObject_eq_ok htree
  cases h
  exact ⟨row, properties, members, _, hrow, hproperties, hmembers, rfl⟩

/-- The members of a table are named after the properties of its rows. -/
theorem names_tableRoot {document : String} {schema : Json} {root : TypeTree}
    (h : library.tableRoot document schema = .ok root) :
    ∃ row properties, library.rowSchema document schema = .ok row ∧
      properties? row.schema = some properties ∧
      Entries.keys properties = root.members.map TypeTree.name := by
  obtain ⟨row, properties, members, field, hrow, hproperties, hmembers, rfl⟩ := tableRoot_eq_ok h
  refine ⟨row, properties, hrow, hproperties, (names_buildMembers ?_ hmembers).symm⟩
  exact fun _ _ _ _ htree => name_buildWithin htree

end Library

end TableExport
