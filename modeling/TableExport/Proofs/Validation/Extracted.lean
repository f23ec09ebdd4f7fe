import TableExport.Proofs.Schema.Building
import TableExport.Proofs.Table.RoundTrip
import TableExport.Proofs.Table.Shape
import TableExport.Proofs.Validation.Typing
import TableExport.Validation.RowSet

/-!
# Extracted tables are well typed

The type tree of a table and its inlined schema come from the same nodes. What has the shape of the
tree of a node is therefore well typed for what the node is inlined to (`wellTyped_of_fits`), and an
extracted table for the schema of its rows (`wellTyped_of_extractTable`): whatever is wrong with it
is wrong with other keywords than those that say types.
-/

namespace TableExport

open Extraction Library

/-! ## Types -/

theorem ofName?_eq_some {name : String} {type : ScalarType}
    (h : ScalarType.ofName? name = some type) : name = type.name := by
  rw [ScalarType.ofName?] at h
  split at h
  · rename_i hname
    cases h
    exact hname
  · split at h
    · rename_i hname
      cases h
      exact hname
    · split at h
      · rename_i hname
        cases h
        exact hname
      · split at h
        · rename_i hname
          cases h
          exact hname
        · cases h

/-- A value of a scalar type has the type with its name. -/
theorem hasType_toJson (value : Scalar) : Keyword.hasType value.type.name value.toJson = true := by
  cases value <;> rfl

/-- The kind of a schema is one of the types that it declares. -/
theorem hasType_of_schemaKind? {schema types value : Json} {kind : String}
    (hkind : schemaKind? schema = some kind) (htypes : schema.get? "type" = some types)
    (hvalue : Keyword.hasType kind value = true) : HasType types value := by
  rw [schemaKind?, htypes] at hkind
  cases types with
  | str type =>
    cases hkind
    exact hvalue
  | arr names => exact ⟨kind, List.mem_of_find?_eq_some hkind, hvalue⟩
  | _ => trivial

theorem arr?_of_schemaKind? {schema : Json} {kind : String} (h : schemaKind? schema = some kind) :
    schema.arr? = none := by
  cases schema with
  | arr items => cases h
  | _ => rfl

theorem ne_false_of_schemaKind? {schema : Json} {kind : String}
    (h : schemaKind? schema = some kind) : schema ≠ .bool false := by
  rintro rfl
  cases h

/-! ## Values -/

theorem toJsonItems_eq_map (items : List (Extracted Scalar)) :
    Extracted.toJsonItems items = items.map Extracted.toJson := by
  induction items with
  | nil => rfl
  | cons item rest ih => rw [Extracted.toJsonItems, ih, List.map_cons]

theorem mem_toJsonFields {fields : Entries (Extracted Scalar)} {name : String} {part : Json}
    (h : (name, part) ∈ Extracted.toJsonFields fields) :
    ∃ value, (name, value) ∈ fields ∧ part = value.toJson := by
  induction fields with
  | nil => cases h
  | cons field rest ih =>
    obtain ⟨own, value⟩ := field
    rw [Extracted.toJsonFields] at h
    rcases List.mem_cons.1 h with heq | h
    · cases heq
      exact ⟨value, List.mem_cons_self, rfl⟩
    · obtain ⟨value, hvalue, hpart⟩ := ih h
      exact ⟨value, List.mem_cons_of_mem _ hvalue, hpart⟩

namespace Library

variable {library : Library (Except SchemaError)}

/-! ## Nodes -/

section Nodes

variable {change : Json → Except SchemaError Json} {schema inlined : Json}

/-- A single value is well typed for a leaf. -/
theorem wellTyped_scalar (hinlines : Inlines change schema inlined) {kind : String}
    {type : ScalarType} (hkind : schemaKind? schema = some kind)
    (htype : ScalarType.ofName? kind = some type) {value : Scalar} (hvalue : OfType type value) :
    WellTyped inlined value.toJson := by
  rw [← hinlines.schemaKind?_eq] at hkind
  have hname : kind = value.type.name := by rw [ofName?_eq_some htype, ← hvalue]
  refine WellTyped.intro (ne_false_of_schemaKind? hkind) (fun types htypes => ?_) ?_ ?_ ?_
  · exact hasType_of_schemaKind? hkind htypes (hname ▸ hasType_toJson value)
  · intro _ members _ _ _ _ _ hobj
    cases value <;> cases hobj
  · intro _ items _ harr
    cases value <;> cases harr
  · intro _ items _ harr
    cases value <;> cases harr

/-- A record is well typed for an object schema when its fields are for the properties. -/
theorem wellTyped_record (hinlines : Inlines change schema inlined)
    (hkind : schemaKind? schema = some "object") {properties : Entries Json}
    (hproperties : properties? schema = some properties)
    {build : String → Json → String → Except SchemaError TypeTree}
    (hbuild : ∀ name schema path tree, build name schema path = .ok tree → tree.name = name)
    {path : String} {members : List TypeTree}
    (hmembers : buildMembers build path properties = .ok members)
    (hbelow : ∀ name child child' path member value, change child = .ok child' →
      build name child path = .ok member → Fits OfType member value →
      WellTyped child' value.toJson)
    {field : Field} {value : Extracted Scalar}
    (hfits : FitsOne OfType (.composite field members) value) :
    WellTyped inlined value.toJson := by
  rw [← hinlines.schemaKind?_eq] at hkind
  cases hfits with
  | scalar htype => cases htype
  | @record _ fields _ _ hnodup hkeys hvalues =>
    rw [Extracted.toJson]
    refine WellTyped.intro (ne_false_of_schemaKind? hkind) (fun types htypes => ?_) ?_
      (fun _ _ _ harr => by cases harr) (fun _ _ _ harr => by cases harr)
    · exact hasType_of_schemaKind? hkind htypes rfl
    · intro properties' parts name child' part hget hchild' hobj hpart
      cases hobj
      obtain ⟨found, hfound, rfl⟩ := mem_toJsonFields hpart
      -- the property comes from one of the same name, which a member was built for
      obtain ⟨child, hchild, hchange⟩ : ∃ child, properties.get? name = some child ∧
          change child = .ok child' := by
        have hrel := hinlines.properties?
        rw [hproperties] at hrel
        generalize hinlined : TableExport.properties? inlined = inlined? at hrel
        cases hrel with
        | some hall =>
          have hsame := get?_of_properties? hinlined
          rw [hget] at hsame
          cases hsame
          exact get?_of_forall₂ hall hchild'
      obtain ⟨member, hmember, hbuilt⟩ := find?_of_buildMembers hbuild hmembers hchild
      have hfit := hvalues name found member (Entries.get?_of_mem hnodup hfound) hmember
      exact hbelow name child child' _ member found hchange hbuilt hfit

end Nodes

/-- A list is well typed for an array schema when its items are for the schema of the items. -/
theorem wellTyped_list {schema : Json} (hkind : schemaKind? schema = some "array")
    (hsingle : (itemSchema schema).arr? = none) {items : List (Extracted Scalar)}
    (hbelow : ∀ item ∈ items, WellTyped (itemSchema schema) item.toJson) :
    WellTyped schema (Extracted.list items).toJson := by
  rw [Extracted.toJson, toJsonItems_eq_map]
  have heach : ∀ each, schema.get? "items" = some each → itemSchema schema = each := by
    intro each hget
    rw [itemSchema, hget]
    rfl
  refine WellTyped.intro (ne_false_of_schemaKind? hkind) (fun types htypes => ?_)
    (fun _ _ _ _ _ _ _ hobj => by cases hobj) ?_ ?_
  · exact hasType_of_schemaKind? hkind htypes rfl
  · intro each parts hget _
    rw [← heach each hget]
    exact hsingle
  · intro each parts hget harr part hpart
    cases harr
    obtain ⟨item, hitem, rfl⟩ := List.mem_map.1 hpart
    rw [← heach each hget]
    exact hbelow item hitem

section Walks

variable {depth depth' : Nat} {document name path : String} {node inlined : Json}
  {active active' : List String} {tree : TypeTree}

/-- Inlining and typing resolve a node alike. -/
theorem inlines_and_builds
    (hinline : library.inlineWithin depth document node active = .ok inlined)
    (hbuild : library.buildWithin depth' name document node path active' = .ok tree) :
    ∃ rest rest' resolved, depth = rest + 1 ∧ depth' = rest' + 1 ∧
      library.resolve document node = .ok resolved ∧
      Inlines (fun child =>
        library.inlineWithin rest resolved.document child (active ++ resolved.chain))
        resolved.schema inlined ∧
      Builds (fun name schema path => library.buildWithin rest' name resolved.document schema path
        (active' ++ resolved.chain)) name resolved.schema path tree := by
  cases depth with
  | zero => cases hinline
  | succ rest =>
    cases depth' with
    | zero => cases hbuild
    | succ rest' =>
      obtain ⟨resolved, henter, hinlines⟩ := inlineWithin_eq_ok hinline
      obtain ⟨resolved', henter', hbuilds⟩ := buildWithin_eq_ok hbuild
      have hresolve := (enter_eq_ok.1 henter).1
      have hresolve' := (enter_eq_ok.1 henter').1
      rw [hresolve] at hresolve'
      cases hresolve'
      exact ⟨rest, rest', resolved, rfl, rfl, hresolve, hinlines, hbuilds⟩

/-- What has a type tree is no list of schemas once it is inlined. -/
theorem arr?_of_inline_build
    (hinline : library.inlineWithin depth document node active = .ok inlined)
    (hbuild : library.buildWithin depth' name document node path active' = .ok tree) :
    inlined.arr? = none := by
  obtain ⟨_, _, _, -, -, -, hinlines, hbuilds⟩ := inlines_and_builds hinline hbuild
  obtain ⟨kind, hkind⟩ := hbuilds.exists_kind
  rw [← hinlines.schemaKind?_eq] at hkind
  exact arr?_of_schemaKind? hkind

/-- **What has the shape of the tree of a node is well typed for what the node is inlined to.** -/
theorem wellTyped_of_fits (hinline : library.inlineWithin depth document node active = .ok inlined)
    (hbuild : library.buildWithin depth' name document node path active' = .ok tree)
    {value : Extracted Scalar} (hfits : Fits OfType tree value) :
    WellTyped inlined value.toJson := by
  induction depth generalizing depth' document name path node inlined active active' tree value with
  | zero => cases hinline
  | succ depth ih =>
    obtain ⟨rest, rest', resolved, hdepth, rfl, -, hinlines, hbuilds⟩ :=
      inlines_and_builds hinline hbuild
    cases hdepth
    cases hbuilds with
    | @array element field hkind helement hone _ harray =>
      cases hfits with
      | one hsingle =>
        rw [TypeTree.isArray_withField, harray] at hsingle
        cases hsingle
      | list _ _ hitems =>
        obtain hitem | ⟨hobj, -⟩ := hinlines.itemSchema
        · refine wellTyped_list (hinlines.schemaKind?_eq ▸ hkind)
            (arr?_of_inline_build hitem helement) fun item hi => ?_
          exact ih hitem helement (Fits.one hone (hitems item hi).of_withField)
        · obtain ⟨e, he⟩ := exists_error_buildWithin library hobj rest' name resolved.document path
            (active' ++ resolved.chain)
          rw [he] at helement
          cases helement
    | object hkind hproperties hmembers _ hsingle =>
      cases hfits with
      | list harray =>
        cases harray.symm.trans hsingle
      | one _ hone =>
        refine wellTyped_record hinlines hkind hproperties
          (fun _ _ _ _ htree => name_buildWithin htree) hmembers ?_ hone
        exact fun _ _ _ _ _ _ hchange hmember hfit => ih hchange hmember hfit
    | leaf hkind htype _ hsingle =>
      cases hfits with
      | list harray =>
        cases harray.symm.trans hsingle
      | one _ hone =>
        cases hone with
        | scalar hscalar hvalue =>
          cases hscalar
          exact wellTyped_scalar hinlines hkind htype hvalue
        | record hleaf => cases hleaf

end Walks

/-! ## Tables -/

variable {document : String} {node inlined : Json} {root : TypeTree}

/-- A row of a table is well typed for what the schema of a row is inlined to. -/
theorem wellTyped_row {depth : Nat} {active : List String} {row : Resolved}
    (hinlines : Inlines (fun child => library.inlineWithin depth row.document child active)
      row.schema inlined)
    (hkind : schemaKind? row.schema = some "object") {properties : Entries Json}
    (hproperties : properties? row.schema = some properties) {members : List TypeTree}
    (hmembers : buildMembers (fun name schema path =>
      library.buildWithin library.bound name row.document schema path []) "" properties =
        .ok members)
    {field : Field} {record : Extracted Scalar}
    (hrecord : FitsOne OfType (.composite field members) record) :
    WellTyped inlined record.toJson := by
  refine wellTyped_record hinlines hkind hproperties (fun _ _ _ _ htree => name_buildWithin htree)
    hmembers ?_ hrecord
  exact fun _ _ _ _ _ _ hchange hmember hfit => wellTyped_of_fits hchange hmember hfit

/-- The rows of a table are well typed for the schema of its rows. -/
theorem wellTyped_rows (hroot : library.tableRoot document node = .ok root)
    (hinline : library.inline document node = .ok inlined) {records : List (Extracted Scalar)}
    (hrecords : ∀ record ∈ records, FitsOne OfType root record) :
    WellTyped (rowSetSchema inlined) (tableJson records) := by
  obtain ⟨row, properties, members, field, hrow, hproperties, hmembers, rfl⟩ :=
    tableRoot_eq_ok hroot
  obtain ⟨hkind, resolved, hresolved, hway⟩ := rowSchema_eq_ok hrow
  obtain ⟨depth, resolved', -, hresolve, hinlines⟩ := inline_eq_ok hinline
  rw [hresolved] at hresolve
  cases hresolve
  rcases hway with rfl | ⟨harray, hitems⟩
  · have hobject := hinlines.schemaKind?_eq.trans hkind
    have hitem : itemSchema (.obj [("type", .str "array"), ("items", inlined)]) = inlined := rfl
    rw [rowSetSchema, if_pos hobject]
    refine wellTyped_list rfl (hitem ▸ arr?_of_schemaKind? hobject) fun record hr => ?_
    rw [hitem]
    exact wellTyped_row hinlines hkind hproperties hmembers (hrecords record hr)
  · have hlist := hinlines.schemaKind?_eq.trans harray
    rw [rowSetSchema, if_neg (by rw [hlist]; decide)]
    obtain hitem | ⟨hobj, -⟩ := hinlines.itemSchema
    · cases depth with
      | zero => cases hitem
      | succ depth =>
        obtain ⟨row', henter, hinlines'⟩ := inlineWithin_eq_ok hitem
        have hresolve := (enter_eq_ok.1 henter).1
        rw [hitems] at hresolve
        cases hresolve
        have hobject := hinlines'.schemaKind?_eq.trans hkind
        refine wellTyped_list hlist (arr?_of_schemaKind? hobject) fun record hr => ?_
        exact wellTyped_row hinlines' hkind hproperties hmembers (hrecords record hr)
    · rw [resolve_of_get?_eq_none (get?_of_obj?_eq_none hobj "$ref")] at hitems
      cases hitems
      rw [schemaKind?_of_obj?_eq_none hobj] at hkind
      cases hkind

theorem distinct_rowSetSchema (h : inlined.Distinct) : (rowSetSchema inlined).Distinct := by
  rw [rowSetSchema]
  split
  · simp [h]
  · exact h

/-- **An extracted table is well typed for the schema of its rows.** When no object of the schemas
has two members of one name, validation finds nothing wrong with the types either: what it reports
are violations of other keywords. -/
theorem wellTyped_of_extractTable {sheet : Sheet} {records : List (Extracted Scalar)}
    (hroot : library.tableRoot document node = .ok root)
    (hrecords : extractTable sheet root = .ok records)
    (hinline : library.inline document node = .ok inlined) :
    WellTyped (rowSetSchema inlined) (tableJson records) ∧
      (library.Distinct → node.Distinct →
        ∀ violation ∈ violations (rowSetSchema inlined) (tableJson records),
          ¬ TypingPath violation.schemaPath) := by
  obtain ⟨row, properties, members, field, -, -, -, htree⟩ := tableRoot_eq_ok hroot
  have hleaf : root.isLeaf = false := by
    rw [htree]
    rfl
  have htyped := wellTyped_rows hroot hinline (fitsOne_of_extractTable hleaf hrecords)
  refine ⟨htyped, fun hlibrary hnode violation hv => ?_⟩
  have hdistinct := distinct_rowSetSchema (distinct_inline hlibrary hinline hnode)
  exact htyped.not_typingPath hdistinct hv rfl

/-- The schema of an order that may be missing, with tags of a type of their own and lines whose
count may be a text as well. -/
def orderSchema : Json :=
  .obj [("type", .arr [.str "null", .str "object"]),
    ("properties", .obj [
      ("tags", .obj [("items", .obj [("type", .arr [.str "null", .str "string"])])]),
      ("id", .obj [("type", .str "integer")]),
      ("lines", .obj [("type", .str "array"), ("items", .obj [("properties", .obj [
        ("part", .obj [("type", .str "object"),
          ("properties", .obj [("code", .obj [("type", .str "string")])])]),
        ("count", .obj [("type", .arr [.str "integer", .str "string"])])])])])])]

/-- A library of the schema of an order. -/
def orderLibrary : Library (Except SchemaError) := ofDocuments [("order", orderSchema)] 9

theorem wellTyped_orders :
    WellTyped (rowSetSchema (.obj [("items", orderSchema)]))
        (tableJson (Authored.orders.map (Extracted.map Written.value))) ∧
      ∀ violation ∈ violations (rowSetSchema (.obj [("items", orderSchema)]))
          (tableJson (Authored.orders.map (Extracted.map Written.value))),
        ¬ TypingPath violation.schemaPath := by
  have hcells := List.Perm.refl
    (Authored.sheetCells (fun _ _ => .sharedString) Authored.orderType 1 Authored.orders)
  have hread := extractTable_eq_ok
    (Authored.ofSheet_sheetCells Authored.authorable_orderType (fun _ _ => rfl) hcells "book"
      "Orders")
    (Authored.covers_layouts Authored.authorable_orderType _)
    (Authored.readTable_sheetCells Authored.authorable_orderType (fun _ _ => rfl)
      (by decide +kernel) Authored.itemConforms_orders hcells "book" "Orders")
  have hroot : orderLibrary.tableRoot "orders" (.obj [("items", .obj [("$ref", .str "order")])]) =
      .ok Authored.orderType := rfl
  have hinline : orderLibrary.inline "orders" (.obj [("items", .obj [("$ref", .str "order")])]) =
      .ok (.obj [("items", orderSchema)]) := rfl
  obtain ⟨htyped, hpaths⟩ := wellTyped_of_extractTable hroot hread hinline
  refine ⟨htyped, hpaths (distinct_ofDocuments ?_ 9) ?_⟩
  · simp [orderSchema]
  · simp

end Library

end TableExport
