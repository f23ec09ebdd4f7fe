import TableExport.Proofs.Schema.Circles
import TableExport.Proofs.Schema.Independence

/-!
# Where the names of types come from

A node of a type tree has the name of a type when a reference was followed to its schema. The name
is then that of the last reference, and the node stands for the schema that it leads to
(`Library.Sourced`); so it is of every node of a tree (`Library.sourced_buildWithin`).

The name of a reference is the last segment of its pointer, if this can name a type
(`displayName_eq`).
-/

namespace TableExport

/-! ## Names of references -/

theorem Pointer.replacePair_of_not_mem {first second replacement : Char} {chars : List Char}
    (h : first ∉ chars) : replacePair first second replacement chars = chars := by
  fun_induction replacePair first second replacement chars with
  | case1 => rfl
  | case2 => rfl
  | case3 a b rest hpair => exact absurd hpair.1.symm (List.ne_of_not_mem_cons h)
  | case4 a b rest hpair ih => rw [ih (List.not_mem_of_not_mem_cons h)]

/-- A segment without a tilde stands for itself. -/
theorem Pointer.unescape_of_not_mem {segment : String} (h : '~' ∉ segment.toList) :
    unescape segment = segment := by
  rw [unescape, unescapeChars, replacePair_of_not_mem h, replacePair_of_not_mem h,
    String.ofList_toList]

theorem Literal.isSome_digit? {radix value number : Nat} {chars : List Char}
    (h : digitsFrom? radix value chars = some number) :
    ∀ c ∈ chars, (digit? radix c).isSome := by
  induction chars generalizing value with
  | nil => exact fun c hc => absurd hc List.not_mem_nil
  | cons c rest ih =>
    rw [digitsFrom?] at h
    obtain ⟨digit, hdigit, h⟩ := Option.bind_eq_some_iff.1 h
    exact List.forall_mem_cons.2 ⟨by rw [hdigit]; rfl, ih h⟩

/-- A number has no tilde. -/
theorem Literal.not_mem_of_count? {text : String} {number : Nat} (h : count? text = some number) :
    '~' ∉ text.toList := by
  rw [count?, unsigned?.eq_def] at h
  obtain ⟨h, -⟩ := Option.filter_eq_some_iff.1 h
  have hdigits : ∀ body, digits? 10 body = some number → '~' ∉ body := by
    intro body hbody hmem
    cases body with
    | nil => cases hmem
    | cons c rest => exact absurd (isSome_digit? hbody _ hmem) (by decide)
  split at h
  · rename_i rest htext
    rw [htext, List.mem_cons, not_or]
    exact ⟨by decide, hdigits _ h⟩
  · exact hdigits _ h

/-- A segment that stands for what can name a type can name one. -/
theorem namesType_of_unescape {segment : String}
    (h : namesType (Pointer.unescape segment) = true) : namesType segment = true := by
  by_cases htilde : '~' ∈ segment.toList
  · have hstructural : segment ∉ structuralSegments := by
      intro hmem
      fin_cases hmem <;> exact absurd htilde (by decide)
    have hempty : segment.isEmpty = false := by
      rw [String.isEmpty_eq_false_iff]
      rintro rfl
      cases htilde
    have hcount : Literal.count? segment = none := by
      rw [← Option.not_isSome_iff_eq_none, Option.isSome_iff_exists]
      rintro ⟨number, hnumber⟩
      exact Literal.not_mem_of_count? hnumber htilde
    simp [namesType, hempty, hstructural, hcount]
  · rwa [Pointer.unescape_of_not_mem htilde] at h

/-- What follows the number sign of a reference is its pointer. -/
theorem SchemaReference.drop_of_split? {reference target pointer : String}
    (h : split? reference = some (target, pointer)) :
    (reference.toList.span (· != '#')).2.drop 1 = pointer.toList := by
  rw [split?] at h
  generalize reference.toList.span (· != '#') = parts at h
  obtain ⟨document, rest⟩ := parts
  simp only at h
  split at h
  · split at h
    · cases h
    · cases h
      rfl
  · split at h
    · rename_i pointer' hempty
      cases h
      rw [List.isEmpty_iff.1 hempty]
      rfl
    · split at h
      · cases h
        simp
      · cases h

/-- **A reference has the name that the last segment of its pointer stands for.** -/
theorem displayName_eq {reference target pointer name : String} {before : List String}
    (hsplit : SchemaReference.split? reference = some (target, pointer))
    (hsegments : (Pointer.segments pointer).map Pointer.unescape = before ++ [name])
    (hname : namesType name = true) : displayName reference = name := by
  obtain ⟨others, ends, hothers, -, hends⟩ := List.map_eq_append_iff.1 hsegments
  obtain ⟨segment, rfl, rfl⟩ := List.map_eq_singleton_iff.1 hends
  have hsplits : ∃ first, (Pointer.splitAt '/' pointer.toList).map String.ofList =
      first :: (others ++ [segment]) := by
    rw [Pointer.segments, List.map_drop] at hothers
    generalize (Pointer.splitAt '/' pointer.toList).map String.ofList = parts at hothers
    cases parts with
    | nil => simp at hothers
    | cons first rest => exact ⟨first, by rw [← hothers]; rfl⟩
  obtain ⟨first, hfirst⟩ := hsplits
  have hdrop := SchemaReference.drop_of_split? hsplit
  rw [displayName]
  generalize reference.toList.span (· != '#') = parts at hdrop
  obtain ⟨document, rest⟩ := parts
  simp only at hdrop
  have hlast : ((first :: (others ++ [segment])).filter namesType).getLast? = some segment := by
    rw [← List.cons_append, List.filter_append,
      List.filter_cons_of_pos (namesType_of_unescape hname), List.filter_nil,
      List.getLast?_append, List.getLast?_singleton, Option.some_or]
  simp only [hdrop, hfirst, hlast]

/-! ## Nodes in documents -/

namespace Library

variable {library : Library (Except SchemaError)}

/-- A node with no references but those of the document that it stands in. -/
def Housed (library : Library (Except SchemaError)) (place : SchemaPlace) : Prop :=
  ∃ root, library.read place.document = .ok root ∧ place.node.references ⊆ root.references

theorem At.housed {place : SchemaPlace} {pointer : String} (h : library.At place pointer) :
    library.Housed place := by
  obtain ⟨root, hroot, hlookup⟩ := h
  exact ⟨root, hroot, (Json.within_lookup hlookup).references⟩

theorem Housed.part {document : String} {node part : Json} (h : library.Housed ⟨document, node⟩)
    (hpart : part.Within node) : library.Housed ⟨document, part⟩ := by
  obtain ⟨root, hroot, hsub⟩ := h
  exact ⟨root, hroot, fun _ hr => hsub (hpart.references hr)⟩

theorem Housed.of_walk {place next : SchemaPlace} (h : library.Housed place)
    (hwalk : Relation.ReflTransGen library.Refers place next) : library.Housed next := by
  rcases hwalk.cases_tail with rfl | ⟨_, -, _, _, _, -, -, -, hat⟩
  · exact h
  · exact hat.housed

/-! ## The last reference -/

theorem reference_of_hop {from_ next : Resolved} {reference : String}
    (h : library.hop from_ reference = .ok next) : next.reference = some reference := by
  rw [hop] at h
  split at h
  · cases h
  · rename_i target pointer _
    simp only at h
    generalize (if target.isEmpty then from_.document else target) = name at h
    split at h
    · cases h
    · obtain ⟨root, -, h⟩ := bind_eq_ok.1 h
      split at h
      · cases h
        rfl
      · cases h

/-- The reference that a resolved node remembers is the last one that was followed. -/
theorem refers_of_resolve {document reference : String} {node : Json} {resolved : Resolved}
    (h : library.resolve document node = .ok resolved)
    (hreference : resolved.reference = some reference) :
    ∃ from_, Relation.ReflTransGen library.Refers ⟨document, node⟩ from_ ∧
      from_.node.get? "$ref" = some (.str reference) ∧
      library.Refers from_ resolved.place := by
  rcases (follow_eq_ok h).1.cases_tail with rfl | ⟨middle, hwalk, own, href, hhop⟩
  · cases hreference
  · obtain ⟨hway, hname, -⟩ := places_of_walk hwalk rfl (Or.inr (rfl : document = document))
    rw [reference_of_hop hhop] at hreference
    obtain rfl := Option.some.inj hreference
    exact ⟨middle.place, hway, href, (place_of_hopsTo ⟨own, href, hhop⟩ hname).1⟩

end Library

/-! ## Nodes of type trees -/

/-- Something holds of a node and of all nodes below it. -/
inductive TypeTree.Everywhere (P : TypeTree → Prop) : TypeTree → Prop
  | leaf {field : Field} {type : ScalarType} : P (.leaf field type) →
    Everywhere P (.leaf field type)
  | composite {field : Field} {members : List TypeTree} : P (.composite field members) →
    (∀ member ∈ members, Everywhere P member) → Everywhere P (.composite field members)

theorem TypeTree.Everywhere.self {P : TypeTree → Prop} {tree : TypeTree} (h : tree.Everywhere P) :
    P tree := by
  cases h with
  | leaf hself => exact hself
  | composite hself => exact hself

theorem TypeTree.Everywhere.members {P : TypeTree → Prop} {tree : TypeTree}
    (h : tree.Everywhere P) : ∀ member ∈ tree.members, member.Everywhere P := by
  cases h with
  | leaf => exact fun _ hmember => by cases hmember
  | composite _ hmembers => exact hmembers

/-- A composite stands for the schema of an object, and a leaf for one of single values, with the
texts that it admits. -/
inductive TypeTree.StandsFor (schema : Json) : TypeTree → Prop
  | composite {field : Field} {members : List TypeTree} : schemaKind? schema = some "object" →
    StandsFor schema (.composite field members)
  | leaf {field : Field} {type : ScalarType} {kind : String} : schemaKind? schema = some kind →
    ScalarType.ofName? kind = some type → field.enumValues = enumValues schema →
    StandsFor schema (.leaf field type)

/-- No node stands for an array as such. -/
theorem TypeTree.StandsFor.ne_array {schema : Json} {node : TypeTree} (h : node.StandsFor schema) :
    schemaKind? schema ≠ some "array" := by
  intro harray
  cases h with
  | composite hkind =>
    rw [hkind] at harray
    exact absurd (Option.some.inj harray) (by decide)
  | leaf hkind htype =>
    rw [hkind] at harray
    obtain rfl := Option.some.inj harray
    cases htype

namespace Library

variable {library : Library (Except SchemaError)}

/-- The name of the type of a node, if it has one, is that of a reference in one of the documents,
and the node stands for the schema that the reference leads to. -/
def Sourced (library : Library (Except SchemaError)) (node : TypeTree) : Prop :=
  ∀ typeName ∈ node.field.typeName, ∃ from_ next reference,
    library.Housed from_ ∧ from_.node.get? "$ref" = some (.str reference) ∧
    library.Refers from_ next ∧ next.node.get? "$ref" = none ∧
    typeName = displayName reference ∧ node.StandsFor next.node

/-- The array of what an element is has the element's name of a type. -/
theorem Sourced.withField {element : TypeTree} {field : Field}
    (h : element.Everywhere library.Sourced) (htypeName : field.typeName = element.field.typeName)
    (hvalues : field.enumValues = element.field.enumValues) :
    (element.withField field).Everywhere library.Sourced := by
  cases h with
  | leaf hself =>
    refine .leaf fun typeName hname => ?_
    obtain ⟨from_, next, reference, hfrom, href, hrefers, hends, hdisplay, hstands⟩ :=
      hself typeName (htypeName ▸ hname)
    refine ⟨from_, next, reference, hfrom, href, hrefers, hends, hdisplay, ?_⟩
    cases hstands with
    | leaf hkind htype hown => exact .leaf hkind htype (hvalues.trans hown)
  | composite hself hbelow =>
    refine .composite (fun typeName hname => ?_) hbelow
    obtain ⟨from_, next, reference, hfrom, href, hrefers, hends, hdisplay, hstands⟩ :=
      hself typeName (htypeName ▸ hname)
    refine ⟨from_, next, reference, hfrom, href, hrefers, hends, hdisplay, ?_⟩
    cases hstands with
    | composite hkind => exact .composite hkind

/-- A node that stands for a resolved schema has the name of the last reference to it. -/
theorem sourced_of_resolve {document : String} {schema : Json} {resolved : Resolved}
    (hhoused : library.Housed ⟨document, schema⟩)
    (hresolve : library.resolve document schema = .ok resolved) {node : TypeTree}
    (htypeName : node.field.typeName = resolved.reference.map displayName)
    (hstands : node.StandsFor resolved.schema) : library.Sourced node := by
  intro typeName hname
  rw [htypeName] at hname
  obtain ⟨reference, hreference, rfl⟩ := Option.map_eq_some_iff.1 hname
  obtain ⟨from_, hwalk, href, hrefers⟩ := refers_of_resolve hresolve hreference
  exact ⟨from_, resolved.place, reference, hhoused.of_walk hwalk, href, hrefers,
    get?_ref_of_resolve hresolve, rfl, hstands⟩

/-- The properties of an object have no references but those of the document. -/
theorem Housed.property {document : String} {schema : Json}
    (h : library.Housed ⟨document, schema⟩) (hkind : schemaKind? schema = some "object")
    {properties : Entries Json} (hproperties : properties? schema = some properties)
    {property : String × Json} (hmem : property ∈ properties) :
    library.Housed ⟨document, property.2⟩ := by
  refine h.part (shrinks_typeChildren schema property.2 ?_).1
  rw [typeChildren_of_object hkind, hproperties]
  exact List.mem_map.2 ⟨property, hmem, rfl⟩

/-- So have the items of an array. -/
theorem Housed.items {document : String} {schema : Json} (h : library.Housed ⟨document, schema⟩)
    (hkind : schemaKind? schema = some "array") :
    library.Housed ⟨document, itemSchema schema⟩ := by
  refine h.part (shrinks_typeChildren schema _ ?_).1
  rw [typeChildren_of_array hkind]
  exact List.mem_singleton_self _

/-- **Every name of a type in a tree is that of a reference to a schema that the node stands
for.** -/
theorem sourced_buildWithin {depth : Nat} {name document path : String} {schema : Json}
    {active : List String} {tree : TypeTree} (hhoused : library.Housed ⟨document, schema⟩)
    (h : library.buildWithin depth name document schema path active = .ok tree) :
    tree.Everywhere library.Sourced := by
  induction depth generalizing name document path schema active tree with
  | zero => cases h
  | succ depth ih =>
    obtain ⟨below, resolved, hdepth, henter, hmade⟩ := made_of_buildWithin h
    cases hdepth
    have hresolve := (enter_eq_ok.1 henter).1
    have hplace : library.Housed ⟨resolved.document, resolved.schema⟩ :=
      hhoused.of_walk (walk_of_resolve (Or.inr (rfl : document = document)) hresolve).1
    cases hmade with
    | array hkind helement => exact Sourced.withField (ih (hplace.items hkind) helement) rfl rfl
    | object hkind hproperties hmembers =>
      refine .composite (sourced_of_resolve hhoused hresolve rfl (.composite hkind))
        fun member hm => ?_
      obtain ⟨property, hproperty, _, hbuilt⟩ := exists_of_mem_buildMembers hmembers hm
      exact ih (hplace.property hkind hproperties hproperty) hbuilt
    | leaf hkind htype =>
      exact .leaf (sourced_of_resolve hhoused hresolve rfl (.leaf hkind htype rfl))

/-- The same of the fields of a table. -/
theorem sourced_tableRoot {document : String} {schema : Json} {root : TypeTree}
    (hhoused : library.Housed ⟨document, schema⟩)
    (h : library.tableRoot document schema = .ok root) :
    ∀ member ∈ root.members, member.Everywhere library.Sourced := by
  obtain ⟨row, properties, members, field, hrow, hproperties, hmembers, rfl⟩ := tableRoot_eq_ok h
  obtain ⟨hkind, resolved, hresolve, hrow⟩ := rowSchema_eq_ok hrow
  have hresolved : library.Housed ⟨resolved.document, resolved.schema⟩ :=
    hhoused.of_walk (walk_of_resolve (Or.inr (rfl : document = document)) hresolve).1
  have hplace : library.Housed ⟨row.document, row.schema⟩ := by
    rcases hrow with rfl | ⟨harray, hitems⟩
    · exact hresolved
    · exact (hresolved.items harray).of_walk (walk_of_resolve (Or.inr rfl) hitems).1
  intro member hmember
  obtain ⟨property, hproperty, _, hbuilt⟩ := exists_of_mem_buildMembers hmembers hmember
  exact sourced_buildWithin (hplace.property hkind hproperties hproperty) hbuilt

/-- The tree of a node without a reference stands for it, if any does. -/
theorem standsFor_of_typeNode {name document : String} {schema : Json} {tree node : TypeTree}
    (h : library.typeNode name document schema = .ok tree) (href : schema.get? "$ref" = none)
    (hstands : node.StandsFor schema) : tree.isArray = false ∧ tree.StandsFor schema := by
  obtain ⟨below, resolved, -, henter, hmade⟩ := made_of_buildWithin h
  have hresolve := (enter_eq_ok.1 henter).1
  rw [resolve_of_get?_eq_none href] at hresolve
  obtain rfl := Except.ok.inj hresolve
  cases hmade with
  | array hkind => exact absurd hkind hstands.ne_array
  | object hkind => exact ⟨rfl, .composite hkind⟩
  | leaf hkind htype => exact ⟨rfl, .leaf hkind htype rfl⟩

end Library

end TableExport
