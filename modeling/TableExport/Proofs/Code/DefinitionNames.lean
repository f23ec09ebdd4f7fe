import TableExport.Proofs.Code.Closure
import TableExport.Proofs.Schema.Pointers

/-!
# Names of definitions

A definition is declared under its own name, and a field that refers to it has the name of the
reference, which is recovered from its text. The two agree for each name that can name a type,
whatever characters it has (`Naming.memberType_of_definition`).

A definition whose name is one of the segments that structure a document is declared under it as
well, and fields that refer to it are named for its document (`Naming.memberType_items`).
-/

namespace TableExport

namespace SchemaReference

/-- A reference to a document without a number sign is split at the one that follows it. -/
theorem eq_of_split?_key {name pointer target found : String} (hhash : '#' ∉ name.toList)
    (h : split? (key name pointer) = some (target, found)) : target = name ∧ found = pointer := by
  rw [split?, toList_key, span_hash hhash] at h
  simp only at h
  split_ifs at h with hempty
  · cases h
    exact ⟨String.ofList_toList,
      (String.toList_inj.1 (List.isEmpty_iff.1 hempty)).symm⟩
  · cases h
    exact ⟨String.ofList_toList, String.ofList_toList⟩

/-- The text that refers to a definition. -/
theorem key_definition (target name : String) :
    key target (Violation.pointer ["definitions", name]) =
      target ++ "#/definitions/" ++ Pointer.escape name := by
  rw [← String.toList_inj]
  simp [key, Violation.pointer, String.join_cons,
    show Pointer.escape "definitions" = "definitions" from rfl]

/-- **A reference to a definition has the name of the definition**, if this can name a type. -/
theorem displayName_definition {target name : String} {reference : String × String}
    (hname : namesType name = true)
    (hsplit : split? (target ++ "#/definitions/" ++ Pointer.escape name) = some reference)
    (hhash : '#' ∉ target.toList) :
    displayName (target ++ "#/definitions/" ++ Pointer.escape name) = name := by
  obtain ⟨document, pointer⟩ := reference
  rw [← key_definition] at hsplit ⊢
  obtain ⟨-, rfl⟩ := eq_of_split?_key hhash hsplit
  exact displayName_eq hsplit (show _ = ["definitions"] ++ [name] from
    Pointer.unescape_segments_pointer ["definitions", name]) hname

/-- **A reference to a definition is named for its document**, if the definition has the name of a
segment that structures a document. -/
theorem displayName_structural {target name : String} (hname : name ∈ structuralSegments)
    (hhash : '#' ∉ target.toList) :
    displayName (target ++ "#/definitions/" ++ Pointer.escape name) = documentStem target := by
  have hsplit : Pointer.splitAt '/' ([] ++ (Violation.pointer ["definitions", name]).toList) = _ :=
    Pointer.splitAt_pointer List.not_mem_nil _
  have hfilter : (([] :: ["definitions", name].map fun segment =>
      Pointer.escapeChars segment.toList).map String.ofList).filter namesType = [] := by
    fin_cases hname <;> decide
  rw [List.nil_append] at hsplit
  rw [← key_definition, displayName, toList_key, span_hash hhash]
  simp only [List.drop_succ_cons, List.drop_zero, hsplit, hfilter, List.getLast?_nil,
    String.ofList_toList]

end SchemaReference

namespace Library

variable {library : Library (Except SchemaError)}

/-- A field that refers to a definition without a reference is resolved to it. -/
theorem resolve_definition {home document target name : String} {root field schema : Json}
    {entries : Entries Json} {resolved : Resolved}
    (hread : library.read document = .ok root)
    (hentries : root.get? "definitions" = some (.obj entries))
    (hschema : entries.get? name = some schema) (hends : schema.get? "$ref" = none)
    (hhash : '#' ∉ target.toList)
    (hdocument : document = if target.isEmpty then home else target)
    (href : field.get? "$ref" =
      some (.str (target ++ "#/definitions/" ++ Pointer.escape name)))
    (h : library.resolve home field = .ok resolved) :
    resolved.schema = schema ∧
      resolved.reference = some (target ++ "#/definitions/" ++ Pointer.escape name) ∧
      ∃ parts, SchemaReference.split? (target ++ "#/definitions/" ++ Pointer.escape name) =
        some parts := by
  obtain ⟨hwalk, hlast⟩ := follow_eq_ok h
  rcases hwalk.cases_head with rfl | ⟨next, ⟨reference, hown, hhop⟩, hrest⟩
  · rw [show field.get? "$ref" = none from hlast] at href
    cases href
  · rw [show field.get? "$ref" = some (.str reference) from hown] at href
    cases href
    obtain ⟨found, pointer, root', hsplit, hnext, -, hroot', hlookup, -⟩ := hop_eq_ok hhop
    have hparts := hsplit
    rw [← SchemaReference.key_definition] at hparts
    obtain ⟨rfl, rfl⟩ := SchemaReference.eq_of_split?_key hhash hparts
    rw [hnext, ← hdocument, hread] at hroot'
    cases hroot'
    obtain ⟨members, rfl, -⟩ := Json.exists_mem_of_get? hentries
    rw [Pointer.lookup_pointer] at hlookup
    simp only [Pointer.walk, Pointer.child?,
      show Entries.get? members "definitions" = _ from hentries,
      show Entries.get? entries name = _ from hschema] at hlookup
    have hnode : next.schema = schema := (Except.ok.inj hlookup).symm
    -- the definition has no reference, so the walk ends there
    rcases hrest.cases_head with rfl | ⟨_, ⟨_, hon, -⟩, -⟩
    · exact ⟨hnode, reference_of_hop hhop, _, hsplit⟩
    · rw [hnode, hends] at hon
      cases hon

theorem resolve_of_buildWithin {depth : Nat} {name document path : String} {schema : Json}
    {active : List String} {tree : TypeTree}
    (h : library.buildWithin depth name document schema path active = .ok tree) :
    ∃ resolved, library.resolve document schema = .ok resolved := by
  obtain ⟨_, resolved, -, henter, -⟩ := made_of_buildWithin h
  exact ⟨resolved, (enter_eq_ok.1 henter).1⟩

/-- A tree is made of what its schema is resolved to. -/
theorem exists_made_of_resolve {depth : Nat} {name document path : String} {schema : Json}
    {active : List String} {tree : TypeTree} {resolved : Resolved}
    (hresolve : library.resolve document schema = .ok resolved)
    (h : library.buildWithin depth name document schema path active = .ok tree) :
    ∃ build, Made build (name, path) resolved tree := by
  obtain ⟨below, resolved', -, henter, hmade⟩ := made_of_buildWithin h
  have hresolve' := (enter_eq_ok.1 henter).1
  rw [hresolve] at hresolve'
  cases hresolve'
  exact ⟨_, hmade⟩

/-- A node that holds no list is not made of an array. -/
theorem schemaKind?_ne_array {depth : Nat} {name document path : String} {schema : Json}
    {active : List String} {tree : TypeTree} {resolved : Resolved}
    (hresolve : library.resolve document schema = .ok resolved)
    (h : library.buildWithin depth name document schema path active = .ok tree)
    (hflat : tree.isArray = false) : schemaKind? resolved.schema ≠ some "array" := by
  intro harray
  obtain ⟨build, hmade⟩ := exists_made_of_resolve hresolve h
  obtain ⟨element, -, -, rfl⟩ := hmade.of_array harray
  rw [TypeTree.isArray_withField] at hflat
  cases hflat

/-- The tree of what is no array stands for the schema that its references lead to, and has the name
of the last one. -/
theorem named_of_buildWithin {depth : Nat} {name document path : String} {schema : Json}
    {active : List String} {tree : TypeTree} {resolved : Resolved}
    (hresolve : library.resolve document schema = .ok resolved)
    (hkind : schemaKind? resolved.schema ≠ some "array")
    (h : library.buildWithin depth name document schema path active = .ok tree) :
    tree.StandsFor resolved.schema ∧ tree.field.typeName = resolved.reference.map displayName := by
  obtain ⟨build, hmade⟩ := exists_made_of_resolve hresolve h
  cases hmade with
  | array harray => exact absurd harray hkind
  | object hobject => exact ⟨.composite hobject, rfl⟩
  | leaf hscalar htype => exact ⟨.leaf hscalar htype rfl, rfl⟩

end Library

namespace Naming

variable (naming : Naming)

/-- The name under which a definition is declared: that of its own declaration, which follows those
of the objects below it. -/
def declaredName? (name : String) (node : TypeTree) : Option String :=
  (naming.declareDefinition name node).getLast?.map Declaration.name

/-- What is declared is an object or an enumeration. -/
theorem declarable_of_declareDefinition {name : String} {node : TypeTree}
    (h : naming.declareDefinition name node ≠ []) : Declarable node ∧ node.isArray = false := by
  rw [declareDefinition.eq_def] at h
  split at h
  · exact absurd rfl h
  · rename_i hflat
    refine ⟨?_, Bool.eq_false_iff.2 hflat⟩
    split at h
    · split at h
      · exact absurd rfl h
      · rename_i hvalues
        exact .enumeration (by simpa using hvalues)
    · exact absurd rfl h
    · exact .composite

theorem declaredName?_of_declarable {node : TypeTree} (h : Declarable node)
    (hflat : node.isArray = false) (name : String) :
    naming.declaredName? name node = some (naming.typeName name) := by
  rw [declaredName?, declareDefinition.eq_def, if_neg (by rw [hflat]; exact Bool.false_ne_true)]
  cases h with
  | composite =>
    simp only
    rw [declareObject, List.getLast?_concat]
    rfl
  | enumeration hvalues =>
    simp only
    rw [if_neg (by simpa using hvalues)]
    rfl

theorem memberType_of_declarable {member : TypeTree} (h : Declarable member) {typeName : String}
    (hname : member.field.typeName = some typeName) (owner : String) :
    naming.memberType owner member = naming.typeName typeName := by
  cases h with
  | composite => simp [memberType, hname]
  | enumeration hvalues => simp [memberType, hname, hvalues]

/-- **A definition has one name.** It is an entry of the definitions of a document, has no
reference, and an object or an enumeration is declared for it, under the type name of its name and
among the declarations of the document. A field refers to it from its own document, or from any by the name of
its document. The type of the field has the same name, if the name of the definition can name a
type. If this is a segment that structures a document, the type of the field is named for what the
reference has in front of the number sign. -/
theorem memberType_of_definition {library : Library (Except SchemaError)}
    {document home target name : String} {root schema field : Json} {entries : Entries Json}
    {node member : TypeTree} {depth : Nat} {fieldName path : String} {active : List String}
    (hread : library.read document = .ok root)
    (hentries : root.get? "definitions" = some (.obj entries))
    (hschema : entries.get? name = some schema) (hends : schema.get? "$ref" = none)
    (hnode : library.typeNode name document schema = .ok node)
    (hdeclares : naming.declareDefinition name node ≠ [])
    (htarget : target = "" ∧ home = document ∨
      target = document ∧ document ≠ "" ∧ '#' ∉ document.toList)
    (href : field.get? "$ref" = some (.str (target ++ "#/definitions/" ++ Pointer.escape name)))
    (hmember : library.buildWithin depth fieldName home field path active = .ok member)
    (owner : String) :
    naming.declaredName? name node = some (naming.typeName name) ∧
    (∀ declarations, naming.definitions library document = .ok declarations →
      ∃ declaration ∈ declarations, some declaration.name = naming.declaredName? name node) ∧
    (namesType name = true →
      naming.declaredName? name node = some (naming.memberType owner member)) ∧
    (name ∈ structuralSegments →
      naming.memberType owner member = naming.typeName (documentStem target)) := by
  obtain ⟨hhash, hdocument⟩ : '#' ∉ target.toList ∧
      document = if target.isEmpty then home else target := by
    rcases htarget with ⟨rfl, rfl⟩ | ⟨rfl, hne, hhash⟩
    · exact ⟨by decide, rfl⟩
    · exact ⟨hhash, by simp [hne]⟩
  obtain ⟨hdeclarable, hflat⟩ := naming.declarable_of_declareDefinition hdeclares
  have hown : library.resolve document schema = .ok ⟨document, schema, none, []⟩ :=
    Library.resolve_of_get?_eq_none hends document
  have hkind := Library.schemaKind?_ne_array hown hnode hflat
  obtain ⟨resolved, hresolve⟩ := Library.resolve_of_buildWithin hmember
  obtain ⟨hsame, hreference, parts, hsplit⟩ :=
    Library.resolve_definition hread hentries hschema hends hhash hdocument href hresolve
  obtain ⟨hstands, htypeName⟩ :=
    Library.named_of_buildWithin hresolve (by rw [hsame]; exact hkind) hmember
  -- the field and the definition stand for one schema
  have hmemberDeclarable : Declarable member :=
    hdeclarable.of_standsFor (Library.named_of_buildWithin hown hkind hnode).1 (hsame ▸ hstands)
  rw [hreference, Option.map_some] at htypeName
  rw [naming.memberType_of_declarable hmemberDeclarable htypeName owner,
    naming.declaredName?_of_declarable hdeclarable hflat name]
  refine ⟨rfl, fun declarations h => ?_, fun hname => ?_, fun hname => ?_⟩
  · obtain ⟨root', hroot', hall⟩ := definitions_eq_ok h
    rw [hread] at hroot'
    cases hroot'
    rw [hentries] at hall
    rcases hall with ⟨_, heq, hall⟩ | ⟨hnone, -⟩
    · cases heq
      obtain ⟨node', hnode', hsub⟩ := (declareAll_eq_ok hall).1 _ (Entries.mem_of_get? hschema)
      rw [hnode] at hnode'
      cases hnode'
      obtain ⟨declaration, hdeclaration, heq⟩ :=
        naming.exists_mem_declareDefinition hdeclarable hflat name
      exact ⟨declaration, hsub hdeclaration, congrArg some heq⟩
    · cases hnone
  · rw [SchemaReference.displayName_definition hname hsplit hhash]
  · rw [SchemaReference.displayName_structural hname hhash]

/-- A measure, which is one of some texts. -/
def measureSchema : Json := .obj [("type", .str "string"), ("enum", .arr [.str "sack"])]

/-- A document that defines it under an odd name. -/
def measureDocument : Json := .obj [("definitions", .obj [("per/~kg#", measureSchema)])]

/-- A library of the document. -/
def measureLibrary : Library (Except SchemaError) :=
  Library.ofDocuments [("units.schema", measureDocument)] 9

/-- A field that refers to the definition. -/
def measureField : Json := .obj [("$ref", .str "units.schema#/definitions/per~1~0kg#")]

/-- The type tree of the definition. -/
def measureNode : TypeTree := .leaf { name := "per/~kg#", enumValues := ["sack"] } .string

/-- The type tree of the field. -/
def measureMember : TypeTree :=
  .leaf { name := "by", typeName := some "per/~kg#", enumValues := ["sack"] } .string

theorem memberType_of_definition_measure :
    measureLibrary.typeNode "per/~kg#" "units.schema" measureSchema = .ok measureNode ∧
    Naming.declareDefinition ⟨"Ex"⟩ "per/~kg#" measureNode ≠ [] ∧ namesType "per/~kg#" = true ∧
    "units.schema" ≠ "" ∧ '#' ∉ "units.schema".toList ∧
    measureLibrary.buildWithin 9 "by" "stall" measureField "by" [] = .ok measureMember ∧
    Naming.declaredName? ⟨"Ex"⟩ "per/~kg#" measureNode = some "ExPer/~kg#" ∧
    Naming.memberType ⟨"Ex"⟩ "ExStall" measureMember = "ExPer/~kg#" := by
  have hread : measureLibrary.read "units.schema" = .ok measureDocument := rfl
  have hentries : measureDocument.get? "definitions" = some (.obj [("per/~kg#", measureSchema)]) :=
    rfl
  have hschema : Entries.get? [("per/~kg#", measureSchema)] "per/~kg#" = some measureSchema := rfl
  have hnode : measureLibrary.typeNode "per/~kg#" "units.schema" measureSchema =
      .ok measureNode := rfl
  have hdeclares : Naming.declareDefinition ⟨"Ex"⟩ "per/~kg#" measureNode ≠ [] := by decide
  have hname : namesType "per/~kg#" = true := by decide
  have href : measureField.get? "$ref" = some (.str
      ("units.schema" ++ "#/definitions/" ++ Pointer.escape "per/~kg#")) := rfl
  have hmember : measureLibrary.buildWithin 9 "by" "stall" measureField "by" [] =
      .ok measureMember := rfl
  have hsame := (memberType_of_definition ⟨"Ex"⟩ hread hentries hschema rfl hnode hdeclares
    (Or.inr ⟨rfl, by decide, by decide⟩) href hmember "ExStall").2.2.1 hname
  have hdeclared : Naming.declaredName? ⟨"Ex"⟩ "per/~kg#" measureNode = some "ExPer/~kg#" := by
    decide
  exact ⟨hnode, hdeclares, hname, by decide, by decide, hmember, hdeclared,
    Option.some.inj (hsame.symm.trans hdeclared)⟩

/-- An item with a number. -/
def countedItem : Json :=
  .obj [("type", .str "object"), ("properties", .obj [("id", .obj [("type", .str "integer")])])]

/-- A reference to the definition of items in the document of a shop. -/
def itemsField : Json := .obj [("$ref", .str "shop#/definitions/items")]

/-- The document, of which each row has one of the items. -/
def itemsDocument : Json :=
  .obj [("definitions", .obj [("items", countedItem)]), ("type", .str "object"),
    ("properties", .obj [("first", itemsField)])]

/-- A library of the document. -/
def itemsLibrary : Library (Except SchemaError) := Library.ofDocuments [("shop", itemsDocument)] 9

/-- The type tree of an item under a name, for a reference. -/
def itemsTree (name : String) (typeName : Option String) : TypeTree :=
  .composite { name, typeName } [.leaf { name := "id" } .integer]

/-- A definition with the name of a segment that structures a document is declared under this name,
and a field that refers to it is named for the document. -/
theorem memberType_items :
    itemsLibrary.read "shop" = .ok itemsDocument ∧
    itemsDocument.get? "definitions" = some (.obj [("items", countedItem)]) ∧
    countedItem.get? "$ref" = none ∧
    itemsField.get? "$ref" = some (.str ("shop" ++ "#/definitions/" ++ Pointer.escape "items")) ∧
    itemsLibrary.typeNode "items" "shop" countedItem = .ok (itemsTree "items" none) ∧
    Naming.definitions ⟨""⟩ itemsLibrary "shop" =
      .ok [.object "Items" none false [⟨"id", "int", false, none⟩]] ∧
    Naming.declaredName? ⟨""⟩ "items" (itemsTree "items" none) = some "Items" ∧
    itemsLibrary.buildWithin 9 "first" "shop" itemsField "first" [] =
      .ok (itemsTree "first" (some "shop")) ∧
    (itemsTree "first" (some "shop")).isArray = false ∧
    Naming.memberType ⟨""⟩ "Shop" (itemsTree "first" (some "shop")) = "Shop" :=
  ⟨rfl, rfl, rfl, rfl, rfl, rfl, by decide, rfl, rfl, by decide⟩

end Naming

end TableExport
