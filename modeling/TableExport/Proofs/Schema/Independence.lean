import TableExport.Proofs.Schema.Building
import TableExport.Proofs.Schema.Children

/-!
# Types do not depend on where they are used

The type tree of a field is that of the node that its references lead to, built for that node alone
in its own document, with the name of the field and the name of the type that the field refers to
(`Library.buildWithin_of_refers`). The path of the field, the nodes that are active, the bound that
is left and the document of the field leave no trace.

* `Library.Made.congr`: of one schema the same is made whoever asks, when this is so below it.
* `Library.sameBuilds_buildWithin`: so it is of every node of a document.
-/

namespace TableExport

namespace TypeTree

/-- The node under another name, with another name of its type. -/
def renamed (tree : TypeTree) (name : String) (typeName : Option String) : TypeTree :=
  tree.withField { tree.field with name, typeName }

theorem renamed_self (tree : TypeTree) : tree.renamed tree.name tree.field.typeName = tree := by
  cases tree <;> rfl

end TypeTree

namespace Library

variable {library : Library (Except SchemaError)}

/-! ## One schema -/

section Made

variable {build build' : String × String → Json → Except SchemaError TypeTree}
  {field field' : String × String} {resolved resolved' : Resolved} {tree tree' : TypeTree}

theorem Made.of_array (h : Made build field resolved tree)
    (hkind : schemaKind? resolved.schema = some "array") :
    ∃ element, build field (itemSchema resolved.schema) = .ok element ∧
      element.isArray = false ∧
      tree = element.withField { element.field with
        isArray := true
        description := (description? resolved.schema).or element.field.description } := by
  cases h with
  | array _ helement hflat => exact ⟨_, helement, hflat, rfl⟩
  | object hother =>
    rw [hkind] at hother
    exact absurd (Option.some.inj hother) (by decide)
  | leaf hother htype =>
    rw [hkind] at hother
    obtain rfl := Option.some.inj hother
    cases htype

theorem Made.of_object (h : Made build field resolved tree)
    (hkind : schemaKind? resolved.schema = some "object") :
    ∃ properties members, properties? resolved.schema = some properties ∧
      buildMembers (fun name schema path => build (name, path) schema) field.2 properties =
        .ok members ∧
      tree = describe (.composite
        { name := field.1
          isStruct := ((resolved.schema.get? "x-struct").bind Json.bool?).getD false } members)
        resolved := by
  cases h with
  | array hother =>
    rw [hkind] at hother
    exact absurd (Option.some.inj hother) (by decide)
  | object _ hproperties hmembers => exact ⟨_, _, hproperties, hmembers, rfl⟩
  | leaf hother htype =>
    rw [hkind] at hother
    obtain rfl := Option.some.inj hother
    cases htype

theorem Made.of_scalar (h : Made build field resolved tree) {kind : String} {type : ScalarType}
    (hkind : schemaKind? resolved.schema = some kind)
    (htype : ScalarType.ofName? kind = some type) :
    tree = describe (.leaf { name := field.1 } type) resolved := by
  cases h with
  | array hother =>
    rw [hkind] at hother
    obtain rfl := Option.some.inj hother
    cases htype
  | object hother =>
    rw [hkind] at hother
    obtain rfl := Option.some.inj hother
    cases htype
  | leaf hother hown =>
    rw [hkind] at hother
    obtain rfl := Option.some.inj hother
    rw [htype] at hown
    rw [Option.some.inj hown]

/-- Two ways to build the trees of nodes make the same of a node, under the names that it is built
with. -/
structure SameBuilds (build build' : String × String → Json → Except SchemaError TypeTree) :
    Prop where
  same : ∀ field field' child tree tree', build field child = .ok tree →
    build' field' child = .ok tree' → tree = tree'.renamed field.1 tree'.field.typeName
  name : ∀ field child tree, build' field child = .ok tree → tree.name = field.1

theorem SameBuilds.buildMembers (h : SameBuilds build build') {path path' : String}
    {properties : List (String × Json)} {members members' : List TypeTree}
    (hmembers : buildMembers (fun name schema path => build (name, path) schema) path properties =
      .ok members)
    (hmembers' : Library.buildMembers (fun name schema path => build' (name, path) schema) path'
      properties = .ok members') : members = members' := by
  induction properties generalizing members members' with
  | nil =>
    cases hmembers
    cases hmembers'
    rfl
  | cons property rest ih =>
    obtain ⟨name, schema⟩ := property
    obtain ⟨member, hmember, hmembers⟩ := bind_eq_ok.1 hmembers
    obtain ⟨others, hothers, hmembers⟩ := bind_eq_ok.1 hmembers
    obtain ⟨member', hmember', hmembers'⟩ := bind_eq_ok.1 hmembers'
    obtain ⟨others', hothers', hmembers'⟩ := bind_eq_ok.1 hmembers'
    cases hmembers
    cases hmembers'
    have hname := h.name _ _ _ hmember'
    rw [ih hothers hothers', h.same _ _ _ _ _ hmember hmember', ← hname, TypeTree.renamed_self]

/-- **Of one schema the same is made whoever asks**, under the name that is asked for. The name of
the type tells which reference was followed last. -/
theorem Made.congr (h : Made build field resolved tree) (h' : Made build' field' resolved' tree')
    (hbuild : SameBuilds build build') (hschema : resolved.schema = resolved'.schema) :
    tree = tree'.renamed field.1 tree.field.typeName ∧
      (resolved.reference = resolved'.reference → tree.field.typeName = tree'.field.typeName) := by
  cases h with
  | array hkind helement hflat =>
    rw [hschema] at hkind helement
    obtain ⟨element', helement', -, rfl⟩ := h'.of_array hkind
    rw [hbuild.same _ _ _ _ _ helement helement', hschema]
    simp [TypeTree.renamed]
  | object hkind hproperties hmembers =>
    rw [hschema] at hkind hproperties
    obtain ⟨properties', members', hproperties', hmembers', rfl⟩ := h'.of_object hkind
    rw [hproperties] at hproperties'
    obtain rfl := Option.some.inj hproperties'
    rw [hbuild.buildMembers hmembers hmembers']
    refine ⟨?_, fun href => ?_⟩
    · simp only [describe, hschema, TypeTree.renamed, TypeTree.field_withField,
        TypeTree.withField_withField]
      rfl
    · simp [describe, href]
  | leaf hkind htype =>
    rw [hschema] at hkind
    rw [h'.of_scalar hkind htype]
    refine ⟨?_, fun href => ?_⟩
    · simp only [describe, hschema, TypeTree.renamed, TypeTree.field_withField,
        TypeTree.withField_withField]
      rfl
    · simp [describe, href]

end Made

/-! ## Fields -/

section Fields

variable {depth depth' : Nat} {name name' document path path' : String} {schema : Json}
  {active active' : List String} {tree tree' : TypeTree}

/-- A node of a document has one tree, apart from its name. -/
theorem sameBuilds_buildWithin (library : Library (Except SchemaError)) (depth depth' : Nat)
    (document : String) (active active' : List String) :
    SameBuilds
      (fun field child => library.buildWithin depth field.1 document child field.2 active)
      (fun field child => library.buildWithin depth' field.1 document child field.2 active') := by
  refine ⟨fun field field' child tree tree' h h' => ?_, fun _ _ _ h => name_buildWithin h⟩
  induction depth generalizing depth' document active active' field field' child tree tree' with
  | zero => cases h
  | succ depth ih =>
    obtain ⟨below, resolved, hdepth, henter, hmade⟩ := made_of_buildWithin h
    obtain ⟨below', resolved', -, henter', hmade'⟩ := made_of_buildWithin h'
    cases hdepth
    have hresolve := (enter_eq_ok.1 henter).1
    rw [(enter_eq_ok.1 henter').1] at hresolve
    obtain rfl := Except.ok.inj hresolve
    obtain ⟨hsame, htypeName⟩ := hmade.congr hmade'
      ⟨ih _ _ _ _, fun _ _ _ h => name_buildWithin h⟩ rfl
    rw [← htypeName rfl]
    exact hsame

/-- References lead from a node and from every node on the way to the same end. -/
theorem place_eq_of_refers {place : SchemaPlace}
    (h : Relation.ReflTransGen library.Refers ⟨document, schema⟩ place)
    {resolved resolved' : Resolved} (hresolve : library.resolve document schema = .ok resolved)
    (hresolve' : library.resolve place.document place.node = .ok resolved') :
    resolved.place = resolved'.place := by
  obtain ⟨hwalk, href⟩ := follow_eq_ok hresolve
  obtain ⟨hwalk', href'⟩ := follow_eq_ok hresolve'
  have hway := (places_of_walk hwalk rfl (Or.inr rfl)).1
  have hway' := h.trans (places_of_walk hwalk' rfl (Or.inr rfl)).1
  rcases Relation.ReflTransGen.total_of_right_unique refers_rightUnique hway hway' with hon | hon
  · rcases hon.cases_head with heq | ⟨next, hnext, -⟩
    · exact heq
    · exact absurd href hnext.get?_ne_none
  · rcases hon.cases_head with heq | ⟨next, hnext, -⟩
    · exact heq.symm
    · exact absurd href' hnext.get?_ne_none

/-- **The type of a field is that of the node that its references lead to.** Wherever the field
stands, under whatever path and inside whatever other nodes, its tree is the one that is built for
the node alone in its own document, apart from the name of the field and the name of the type. -/
theorem buildWithin_of_refers {place : SchemaPlace}
    (h : library.buildWithin depth name document schema path active = .ok tree)
    (hrefers : Relation.ReflTransGen library.Refers ⟨document, schema⟩ place)
    (hplace : library.typeNode name' place.document place.node = .ok tree') :
    tree = tree'.renamed name tree.field.typeName := by
  obtain ⟨below, resolved, -, henter, hmade⟩ := made_of_buildWithin h
  obtain ⟨below', resolved', -, henter', hmade'⟩ := made_of_buildWithin hplace
  obtain ⟨hdocument, hschema⟩ := SchemaPlace.mk.inj
    (place_eq_of_refers hrefers (enter_eq_ok.1 henter).1 (enter_eq_ok.1 henter').1)
  rw [← hdocument] at hmade'
  exact (hmade.congr hmade' (sameBuilds_buildWithin library _ _ _ _ _) hschema).1

end Fields

/-- The documents of a piece, which is an item under another name. -/
def pieceDocuments : Entries Json :=
  [("common", .obj [("definitions", .obj [
      ("line", .obj [("$ref", .str "#/definitions/item")]),
      ("item", .obj [("type", .str "object"), ("properties", .obj [
        ("id", .obj [("type", .str "integer")]),
        ("tags", .obj [("items", .obj [("$ref", .str "#/definitions/tag")])])])]),
      ("tag", .obj [("type", .str "string"), ("enum", .arr [.str "new"])])])])]

/-- The tree of an item. -/
def itemTree : TypeTree :=
  .composite { name := "line", typeName := some "item" } [
    .leaf { name := "id" } .integer,
    .leaf { name := "tags", isArray := true, typeName := some "tag", enumValues := ["new"] }
      .string]

theorem buildWithin_of_refers_piece :
    (ofDocuments pieceDocuments 6).buildWithin 4 "piece" "orders"
        (.obj [("$ref", .str "common#/definitions/line")]) "lines.piece" ["orders#/lines"] =
      .ok (itemTree.renamed "piece" (some "item")) ∧
    (ofDocuments pieceDocuments 6).Refers
      ⟨"orders", .obj [("$ref", .str "common#/definitions/line")]⟩
      ⟨"common", .obj [("$ref", .str "#/definitions/item")]⟩ ∧
    (ofDocuments pieceDocuments 6).typeNode "line" "common"
      (.obj [("$ref", .str "#/definitions/item")]) = .ok itemTree ∧
    itemTree.renamed "piece" (some "item") =
      itemTree.renamed "piece" (itemTree.renamed "piece" (some "item")).field.typeName := by
  have hbuild : (ofDocuments pieceDocuments 6).buildWithin 4 "piece" "orders"
      (.obj [("$ref", .str "common#/definitions/line")]) "lines.piece" ["orders#/lines"] =
        .ok (itemTree.renamed "piece" (some "item")) := rfl
  have hrefers : (ofDocuments pieceDocuments 6).Refers
      ⟨"orders", .obj [("$ref", .str "common#/definitions/line")]⟩
      ⟨"common", .obj [("$ref", .str "#/definitions/item")]⟩ :=
    ⟨_, "common", "/definitions/line", rfl, rfl, rfl, _, rfl, rfl⟩
  have hnode : (ofDocuments pieceDocuments 6).typeNode "line" "common"
      (.obj [("$ref", .str "#/definitions/item")]) = .ok itemTree := rfl
  exact ⟨hbuild, hrefers, hnode,
    buildWithin_of_refers hbuild (Relation.ReflTransGen.single hrefers) hnode⟩

end Library

end TableExport
