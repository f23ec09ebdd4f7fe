import TableExport.Proofs.Schema.Distinct
import TableExport.Proofs.Schema.TypeNames

/-!
# The tree of declared properties

A schema declares properties: those of an object in their order, each followed by those of what it
holds. A property holds what its references lead to, or, where this is an array, what the references
of the items lead to. `Library.Lists` goes through the properties in this way, with no mention of a
type tree.

* `TypeTree.nodes` lists the nodes of a type tree with their paths; there are `fieldCount` of them,
  and the longest path has length `maxDepth`.
* `Library.exists_depicts_of_buildWithin`: the nodes of a type tree are the properties that its
  schema declares.
* `Library.tableRoot_declared` is what this comes to for a table.
-/

namespace TableExport

/-! ## The nodes of a type tree -/

namespace TypeTree

mutual

/-- The nodes below a node with their paths, each before those below it. -/
def nodes : TypeTree → List (List String × TypeTree)
  | .leaf .. => []
  | .composite _ members => nodesAll members

/-- The nodes of a list with those below them. -/
def nodesAll : List TypeTree → List (List String × TypeTree)
  | [] => []
  | member :: rest =>
    ([member.name], member) ::
      (member.nodes.map (fun entry => (member.name :: entry.1, entry.2)) ++ nodesAll rest)

end

@[simp] theorem nodes_withField (tree : TypeTree) (field : Field) :
    (tree.withField field).nodes = tree.nodes := by
  cases tree <;> rw [withField, nodes, nodes]

mutual

theorem length_nodes : ∀ tree : TypeTree, tree.nodes.length = tree.fieldCount
  | .leaf .. => by rw [nodes, fieldCount, List.length_nil]
  | .composite _ members => by rw [nodes, fieldCount, length_nodesAll members]

theorem length_nodesAll : ∀ members : List TypeTree,
    (nodesAll members).length = fieldCountAll members
  | [] => by rw [nodesAll, fieldCountAll, List.length_nil]
  | member :: rest => by
    rw [nodesAll, fieldCountAll, List.length_cons, List.length_append, List.length_map,
      length_nodes member, length_nodesAll rest]
    omega

end

variable {tree : TypeTree} {members : List TypeTree} {entry : List String × TypeTree}

/-- A node is one of the members, or below one of them. -/
theorem mem_nodesAll : entry ∈ nodesAll members ↔ ∃ member ∈ members,
    entry = ([member.name], member) ∨
      ∃ inner ∈ member.nodes, entry = (member.name :: inner.1, inner.2) := by
  induction members with
  | nil => simp [nodesAll]
  | cons member rest ih => simp [nodesAll, ih, or_assoc, eq_comm]

theorem path_ne_nil (h : entry ∈ nodesAll members) : entry.1 ≠ [] := by
  obtain ⟨member, -, rfl | ⟨inner, -, rfl⟩⟩ := mem_nodesAll.1 h <;> exact List.cons_ne_nil _ _

/-! ### Levels -/

theorem maxDepth_le_maxDepthAll {member : TypeTree} (h : member ∈ members) :
    member.maxDepth ≤ maxDepthAll members := by
  induction members with
  | nil => cases h
  | cons first rest ih =>
    rw [maxDepthAll]
    rcases List.mem_cons.1 h with rfl | h
    · exact le_max_left _ _
    · exact (ih h).trans (le_max_right _ _)

theorem exists_maxDepth_eq (h : members ≠ []) :
    ∃ member ∈ members, member.maxDepth = maxDepthAll members := by
  induction members with
  | nil => exact absurd rfl h
  | cons first rest ih =>
    rw [maxDepthAll]
    rcases le_total (maxDepthAll rest) first.maxDepth with hle | hle
    · exact ⟨first, List.mem_cons_self, (max_eq_left hle).symm⟩
    · cases rest with
      | nil => exact ⟨first, List.mem_cons_self, (max_eq_left (Nat.zero_le _)).symm⟩
      | cons second rest =>
        obtain ⟨member, hmember, heq⟩ := ih (List.cons_ne_nil _ _)
        exact ⟨member, List.mem_cons_of_mem _ hmember, heq.trans (max_eq_right hle).symm⟩

/-- A composite has members, and their names are different. -/
def Proper : TypeTree → Prop
  | .leaf .. => True
  | .composite _ members => members ≠ [] ∧ (members.map name).Nodup

/-- A path is no longer than there are levels. -/
theorem length_path_le (h : tree.Everywhere Proper) :
    ∀ entry ∈ tree.nodes, entry.1.length ≤ tree.maxDepth := by
  induction h with
  | leaf =>
    intro entry hentry
    rw [nodes] at hentry
    cases hentry
  | @composite field members _ _ ih =>
    intro entry hentry
    rw [nodes] at hentry
    rw [maxDepth]
    obtain ⟨member, hmember, rfl | ⟨inner, hinner, rfl⟩⟩ := mem_nodesAll.1 hentry
    · exact Nat.le_add_right 1 _
    · have hle := ih member hmember inner hinner
      have hdepth := maxDepth_le_maxDepthAll hmember
      rw [List.length_cons]
      omega

/-- There is a path through all levels. -/
theorem exists_length_path_eq (h : tree.Everywhere Proper) :
    tree.maxDepth = 0 ∨ ∃ entry ∈ tree.nodes, entry.1.length = tree.maxDepth := by
  induction h with
  | leaf =>
    rw [maxDepth]
    exact Or.inl rfl
  | @composite field members hself _ ih =>
    right
    rw [nodes, maxDepth]
    obtain ⟨member, hmember, hdepth⟩ := exists_maxDepth_eq hself.1
    rw [← hdepth]
    rcases ih member hmember with hzero | ⟨inner, hinner, hlength⟩
    · exact ⟨_, mem_nodesAll.2 ⟨member, hmember, Or.inl rfl⟩, by rw [hzero]; rfl⟩
    · exact ⟨_, mem_nodesAll.2 ⟨member, hmember, Or.inr ⟨inner, hinner, rfl⟩⟩,
        by rw [List.length_cons, hlength, Nat.add_comm]⟩

/-! ### Different paths -/

theorem nodup_nodesAll (hnames : (members.map name).Nodup)
    (hbelow : ∀ member ∈ members, (member.nodes.map Prod.fst).Nodup) :
    ((nodesAll members).map Prod.fst).Nodup := by
  induction members with
  | nil =>
    rw [nodesAll]
    exact List.nodup_nil
  | cons member rest ih =>
    obtain ⟨hmember, hrest⟩ := List.forall_mem_cons.1 hbelow
    obtain ⟨hname, hnames⟩ := List.nodup_cons.1 hnames
    -- the paths of the other members start with other names
    have hother : ∀ path ∈ (nodesAll rest).map Prod.fst, path.head? ≠ some member.name := by
      intro path hpath hhead
      obtain ⟨entry, hentry, rfl⟩ := List.mem_map.1 hpath
      obtain ⟨other, ho, rfl | ⟨inner, -, rfl⟩⟩ := mem_nodesAll.1 hentry <;>
        exact hname (Option.some.inj hhead ▸ List.mem_map_of_mem ho)
    rw [nodesAll, List.map_cons, List.map_append, List.map_map, List.nodup_cons,
      List.nodup_append]
    refine ⟨fun hmem => ?_, ?_, ih hnames hrest, ?_⟩
    · rcases List.mem_append.1 hmem with hmem | hmem
      · obtain ⟨inner, hinner, heq⟩ := List.mem_map.1 hmem
        cases member with
        | leaf =>
          rw [nodes] at hinner
          cases hinner
        | composite =>
          rw [nodes] at hinner
          exact path_ne_nil hinner (List.cons.inj heq).2
      · exact hother _ hmem rfl
    · have hcons := hmember.map (List.cons_injective (a := member.name))
      rwa [List.map_map] at hcons
    · intro path hpath other ho heq
      obtain ⟨inner, -, rfl⟩ := List.mem_map.1 hpath
      exact hother other ho (heq ▸ rfl)

/-- **The nodes of a type tree have different paths.** -/
theorem nodup_paths (h : tree.Everywhere Proper) : (tree.nodes.map Prod.fst).Nodup := by
  induction h with
  | leaf =>
    rw [nodes]
    exact List.nodup_nil
  | composite hself _ ih =>
    rw [nodes]
    exact nodup_nodesAll hself.2 ih

end TypeTree

/-! ## Declared properties -/

/-- The properties of a schema of object kind with their names, in order. -/
def SchemaPlace.fields (place : SchemaPlace) : List (String × SchemaPlace) :=
  if schemaKind? place.node = some "object" then
    (((place.node.get? "properties").bind Json.obj?).getD []).map fun property =>
      (property.1, ⟨place.document, property.2⟩)
  else []

/-- A property below a schema: the names on the way to it, whether it holds a list, and the schema
of what it holds. -/
structure Declared where
  path : List String
  isArray : Bool
  inner : SchemaPlace

/-- The property, seen from around a property with a name. -/
def Declared.under (name : String) (declared : Declared) : Declared :=
  { declared with path := name :: declared.path }

namespace Library

variable {library : Library (Except SchemaError)} {place inner inner' : SchemaPlace}
  {isArray isArray' : Bool} {fields : List (String × SchemaPlace)} {listing : List Declared}

/-- The references of a place lead to one without any. -/
def Ends (library : Library (Except SchemaError)) (place last : SchemaPlace) : Prop :=
  Relation.ReflTransGen library.Refers place last ∧ last.node.get? "$ref" = none

/-- What the values of a schema are: one of what its references lead to or, if that is of array
kind, a list of what the references of the items lead to. -/
inductive Holds (library : Library (Except SchemaError)) (place : SchemaPlace) :
    Bool → SchemaPlace → Prop
  | one {inner : SchemaPlace} : library.Ends place inner →
    schemaKind? inner.node ≠ some "array" → Holds library place false inner
  | list {outer inner : SchemaPlace} : library.Ends place outer →
    schemaKind? outer.node = some "array" →
    library.Ends ⟨outer.document, itemSchema outer.node⟩ inner → Holds library place true inner

/-- The listing of some properties: each in its order, followed by those of what it holds. -/
inductive Lists (library : Library (Except SchemaError)) :
    List (String × SchemaPlace) → List Declared → Prop
  | nil : Lists library [] []
  | cons {name : String} {field : SchemaPlace} {rest : List (String × SchemaPlace)}
    {isArray : Bool} {inner : SchemaPlace} {below others : List Declared} :
    library.Holds field isArray inner → Lists library inner.fields below →
    Lists library rest others →
    Lists library ((name, field) :: rest)
      (⟨[name], isArray, inner⟩ :: (below.map (Declared.under name) ++ others))

/-- A property is one of some, or it is declared by what one of them holds. -/
inductive Declares (library : Library (Except SchemaError)) :
    List (String × SchemaPlace) → Declared → Prop
  | here {fields : List (String × SchemaPlace)} {name : String} {field inner : SchemaPlace}
    {isArray : Bool} : (name, field) ∈ fields → library.Holds field isArray inner →
    Declares library fields ⟨[name], isArray, inner⟩
  | inside {fields : List (String × SchemaPlace)} {name : String} {field inner : SchemaPlace}
    {isArray : Bool} {declared : Declared} : (name, field) ∈ fields →
    library.Holds field isArray inner → Declares library inner.fields declared →
    Declares library fields (declared.under name)

theorem Ends.unique (h : library.Ends place inner) (h' : library.Ends place inner') :
    inner = inner' := by
  rcases Relation.ReflTransGen.total_of_right_unique refers_rightUnique h.1 h'.1 with hway | hway
  · rcases hway.cases_head with heq | ⟨next, hnext, -⟩
    · exact heq
    · exact absurd h.2 hnext.get?_ne_none
  · rcases hway.cases_head with heq | ⟨next, hnext, -⟩
    · exact heq.symm
    · exact absurd h'.2 hnext.get?_ne_none

theorem Holds.unique (h : library.Holds place isArray inner)
    (h' : library.Holds place isArray' inner') : isArray = isArray' ∧ inner = inner' := by
  cases h with
  | one hends hkind =>
    cases h' with
    | one hends' => exact ⟨rfl, hends.unique hends'⟩
    | list hends' hkind' => exact absurd (hends.unique hends' ▸ hkind') hkind
  | list hends hkind hitems =>
    cases h' with
    | one hends' hkind' => exact absurd (hends.unique hends' ▸ hkind) hkind'
    | list hends' _ hitems' =>
      obtain rfl := hends.unique hends'
      exact ⟨rfl, hitems.unique hitems'⟩

/-- **Properties have one listing.** -/
theorem Lists.unique {listing' : List Declared} (h : library.Lists fields listing)
    (h' : library.Lists fields listing') : listing = listing' := by
  induction h generalizing listing' with
  | nil =>
    cases h'
    rfl
  | cons hholds _ _ ihbelow ihrest =>
    cases h' with
    | cons hholds' hbelow' hrest' =>
      obtain ⟨rfl, rfl⟩ := hholds.unique hholds'
      rw [ihbelow hbelow', ihrest hrest']

/-- **A listing has the properties that are declared.** -/
theorem Lists.mem_iff {declared : Declared} (h : library.Lists fields listing) :
    declared ∈ listing ↔ library.Declares fields declared := by
  induction h generalizing declared with
  | nil =>
    refine ⟨fun hmem => (nomatch hmem), fun hdeclares => ?_⟩
    cases hdeclares with
    | here hfield => cases hfield
    | inside hfield => cases hfield
  | @cons name field rest isArray inner below others hholds _ _ ihbelow ihrest =>
    rw [List.mem_cons, List.mem_append, List.mem_map]
    constructor
    · rintro (rfl | ⟨found, hfound, rfl⟩ | hother)
      · exact .here List.mem_cons_self hholds
      · exact .inside List.mem_cons_self hholds (ihbelow.1 hfound)
      · cases ihrest.1 hother with
        | here hfield hheld => exact .here (List.mem_cons_of_mem _ hfield) hheld
        | inside hfield hheld hdeclares =>
          exact .inside (List.mem_cons_of_mem _ hfield) hheld hdeclares
    · intro hdeclares
      cases hdeclares with
      | here hfield hheld =>
        rcases List.mem_cons.1 hfield with heq | hfield
        · cases heq
          obtain ⟨rfl, rfl⟩ := hholds.unique hheld
          exact Or.inl rfl
        · exact Or.inr (Or.inr (ihrest.2 (.here hfield hheld)))
      | inside hfield hheld hfound =>
        rcases List.mem_cons.1 hfield with heq | hfield
        · cases heq
          obtain ⟨-, rfl⟩ := hholds.unique hheld
          exact Or.inr (Or.inl ⟨_, ihbelow.2 hfound, rfl⟩)
        · exact Or.inr (Or.inr (ihrest.2 (.inside hfield hheld hfound)))

/-! ## Types of declared properties -/

/-- A node of a type tree stands for a declared property with the same path. -/
def Matches (declared : Declared) (entry : List String × TypeTree) : Prop :=
  entry.1 = declared.path ∧ entry.2.isArray = declared.isArray ∧
    entry.2.StandsFor declared.inner.node

/-- The tree of a schema is that of what it holds. -/
structure Depicts (library : Library (Except SchemaError)) (place : SchemaPlace) (tree : TypeTree)
    (inner : SchemaPlace) (below : List Declared) : Prop where
  holds : library.Holds place tree.isArray inner
  stands : tree.StandsFor inner.node
  lists : library.Lists inner.fields below
  nodes : List.Forall₂ Matches below tree.nodes

theorem fields_of_not_object (h : schemaKind? place.node ≠ some "object") : place.fields = [] :=
  if_neg h

theorem fields_of_properties {properties : Entries Json}
    (hkind : schemaKind? place.node = some "object")
    (h : properties? place.node = some properties) :
    place.fields = properties.map fun property => (property.1, ⟨place.document, property.2⟩) := by
  obtain ⟨hfound, -⟩ := Option.filter_eq_some_iff.1 h
  rw [SchemaPlace.fields, if_pos hkind, hfound, Option.getD_some]

/-- The trees of properties are listed as the properties are. -/
theorem exists_lists_of_buildMembers {document : String}
    {build : String → Json → String → Except SchemaError TypeTree}
    (hname : ∀ name schema path tree, build name schema path = .ok tree → tree.name = name)
    (hbuild : ∀ name schema path tree, build name schema path = .ok tree →
      ∃ inner below, library.Depicts ⟨document, schema⟩ tree inner below)
    {path : String} {properties : List (String × Json)} {members : List TypeTree}
    (h : buildMembers build path properties = .ok members) :
    ∃ listing, library.Lists (properties.map fun property => (property.1, ⟨document, property.2⟩))
        listing ∧ List.Forall₂ Matches listing (TypeTree.nodesAll members) := by
  induction properties generalizing members with
  | nil =>
    cases h
    refine ⟨[], .nil, ?_⟩
    rw [TypeTree.nodesAll]
    exact .nil
  | cons property rest ih =>
    obtain ⟨name, schema⟩ := property
    obtain ⟨member, hmember, h⟩ := bind_eq_ok.1 h
    obtain ⟨others, hothers, h⟩ := bind_eq_ok.1 h
    cases h
    obtain ⟨inner, below, hdepicts⟩ := hbuild name schema _ member hmember
    obtain ⟨listing, hlists, hmatches⟩ := ih hothers
    refine ⟨_, .cons hdepicts.holds hdepicts.lists hlists, ?_⟩
    rw [TypeTree.nodesAll, hname name schema _ member hmember]
    refine .cons ⟨rfl, rfl, hdepicts.stands⟩ (List.rel_append ?_ hmatches)
    refine List.forall₂_map_left_iff.2 (List.forall₂_map_right_iff.2 ?_)
    exact hdepicts.nodes.imp fun declared entry hmatch =>
      ⟨congrArg (name :: ·) hmatch.1, hmatch.2⟩

/-- A schema with references stands at the place that they lead to. -/
theorem ends_of_resolve {document : String} {node : Json} {resolved : Resolved}
    (h : library.resolve document node = .ok resolved) :
    library.Ends ⟨document, node⟩ resolved.place :=
  ⟨(walk_of_resolve (Or.inr (rfl : document = document)) h).1, get?_ref_of_resolve h⟩

theorem exists_depicts_of_buildWithin {depth : Nat} {name document path : String} {schema : Json}
    {active : List String} {tree : TypeTree}
    (h : library.buildWithin depth name document schema path active = .ok tree) :
    ∃ inner below, library.Depicts ⟨document, schema⟩ tree inner below := by
  induction depth generalizing name document path schema active tree with
  | zero => cases h
  | succ depth ih =>
    obtain ⟨below, resolved, hdepth, henter, hmade⟩ := made_of_buildWithin h
    cases hdepth
    have hends := ends_of_resolve (enter_eq_ok.1 henter).1
    cases hmade with
    | @array element hkind helement hflat =>
      obtain ⟨inner, below, hdepicts⟩ := ih helement
      have hitems : library.Ends ⟨resolved.document, itemSchema resolved.schema⟩ inner := by
        have hholds := hdepicts.holds
        rw [hflat] at hholds
        cases hholds with
        | one hitems => exact hitems
      refine ⟨inner, below, ?_, ?_, hdepicts.lists, ?_⟩
      · rw [TypeTree.isArray_withField]
        exact .list hends hkind hitems
      · cases hdepicts.stands with
        | composite hobject => exact .composite hobject
        | leaf hscalar htype hvalues => exact .leaf hscalar htype hvalues
      · rw [TypeTree.nodes_withField]
        exact hdepicts.nodes
    | object hkind hproperties hmembers =>
      obtain ⟨listing, hlists, hmatches⟩ := exists_lists_of_buildMembers
        (fun _ _ _ _ htree => name_buildWithin htree) (fun _ _ _ _ htree => ih htree) hmembers
      refine ⟨resolved.place, listing, .one hends ?_, .composite hkind, ?_, ?_⟩
      · rw [show schemaKind? resolved.place.node = _ from hkind]
        decide
      · rwa [fields_of_properties hkind hproperties]
      · rw [describe, TypeTree.nodes_withField, TypeTree.nodes]
        exact hmatches
    | @leaf kind type hkind htype =>
      have hscalar : ∀ other, ScalarType.ofName? other = none →
          schemaKind? resolved.place.node ≠ some other := by
        intro other hother hown
        rw [show schemaKind? resolved.place.node = _ from hkind] at hown
        rw [Option.some.inj hown, hother] at htype
        cases htype
      refine ⟨resolved.place, [], .one hends (hscalar "array" rfl), .leaf hkind htype rfl, ?_, ?_⟩
      · rw [fields_of_not_object (hscalar "object" rfl)]
        exact .nil
      · rw [describe, TypeTree.nodes_withField, TypeTree.nodes]
        exact .nil

/-! ## Members of composites -/

/-- The parts of a schema without repeated names are without them. -/
theorem distinct_of_mem_typeChildren {schema : Json} (h : schema.Distinct) :
    ∀ child ∈ typeChildren schema, child.Distinct := by
  have hpart : ∀ name part, schema.get? name = some part → part.Distinct := by
    intro name part hget
    obtain ⟨members, rfl, hmem⟩ := Json.exists_mem_of_get? hget
    exact h.of_obj.2 _ hmem
  exact forall_mem_typeChildren (.other rfl rfl) (fun items => hpart "items" items)
    fun properties hproperties => (hpart "properties" _ hproperties).of_obj.2

/-- The composite of an object has a member for each property, under its name. -/
theorem everywhere_of_buildMembers {schema : Json} {properties : Entries Json} {path : String}
    {members : List TypeTree} {build : String → Json → String → Except SchemaError TypeTree}
    (hschema : schema.Distinct) (hproperties : properties? schema = some properties)
    (hname : ∀ name schema path tree, build name schema path = .ok tree → tree.name = name)
    (hbuild : ∀ name child path tree, child.Distinct → build name child path = .ok tree →
      tree.Everywhere TypeTree.Proper)
    (h : buildMembers build path properties = .ok members) (field : Field) :
    (TypeTree.composite field members).Everywhere TypeTree.Proper := by
  have hnames := names_buildMembers hname h
  obtain ⟨others, rfl, hmem⟩ := Json.exists_mem_of_get? (get?_of_properties? hproperties)
  obtain ⟨hnodup, hdistinct⟩ := (hschema.of_obj.2 _ hmem).of_obj
  refine .composite ⟨?_, by rwa [hnames]⟩ fun member hmember => ?_
  · rintro rfl
    obtain ⟨-, hsome⟩ := Option.filter_eq_some_iff.1 hproperties
    rw [List.map_nil, Entries.keys, eq_comm, List.map_eq_nil_iff] at hnames
    rw [hnames] at hsome
    cases hsome
  · obtain ⟨property, hproperty, path, hbuilt⟩ := exists_of_mem_buildMembers h hmember
    exact hbuild _ _ path member (hdistinct property hproperty) hbuilt

/-- **A composite has members with different names**, and so have those below it. -/
theorem proper_buildWithin (hlibrary : library.Distinct) {depth : Nat}
    {name document path : String} {schema : Json} {active : List String} {tree : TypeTree}
    (hschema : schema.Distinct)
    (h : library.buildWithin depth name document schema path active = .ok tree) :
    tree.Everywhere TypeTree.Proper := by
  induction depth generalizing name document path schema active tree with
  | zero => cases h
  | succ depth ih =>
    obtain ⟨below, resolved, hdepth, henter, hmade⟩ := made_of_buildWithin h
    cases hdepth
    have hresolved := distinct_resolve hlibrary (enter_eq_ok.1 henter).1 hschema
    cases hmade with
    | array hkind helement =>
      have hitems := distinct_of_mem_typeChildren hresolved
      rw [typeChildren_of_array hkind, List.forall_mem_singleton] at hitems
      cases ih hitems helement with
      | leaf => exact .leaf trivial
      | composite hself hbelow => exact .composite hself hbelow
    | object _ hproperties hmembers =>
      exact everywhere_of_buildMembers hresolved hproperties
        (fun _ _ _ _ htree => name_buildWithin htree) (fun _ _ _ _ hchild htree => ih hchild htree)
        hmembers _
    | leaf => exact .leaf trivial

/-! ## Tables -/

theorem Matches.paths_eq {nodes : List (List String × TypeTree)}
    (h : List.Forall₂ Matches listing nodes) :
    listing.map Declared.path = nodes.map Prod.fst := by
  induction h with
  | nil => rfl
  | cons hmatch _ ih => rw [List.map_cons, List.map_cons, hmatch.1, ih]

/-- A table holds its rows. -/
theorem exists_holds_of_rowSchema {document : String} {schema : Json} {row : Resolved}
    (h : library.rowSchema document schema = .ok row) :
    ∃ isArray, library.Holds ⟨document, schema⟩ isArray row.place := by
  obtain ⟨hkind, resolved, hresolve, rfl | ⟨harray, hitems⟩⟩ := rowSchema_eq_ok h
  · refine ⟨false, .one (ends_of_resolve hresolve) ?_⟩
    rw [show schemaKind? row.place.node = _ from hkind]
    decide
  · exact ⟨true, .list (ends_of_resolve hresolve) harray (ends_of_resolve hitems)⟩

theorem distinct_of_rowSchema (hlibrary : library.Distinct) {document : String} {schema : Json}
    (hschema : schema.Distinct) {row : Resolved}
    (h : library.rowSchema document schema = .ok row) : row.schema.Distinct := by
  obtain ⟨-, resolved, hresolve, rfl | ⟨harray, hitems⟩⟩ := rowSchema_eq_ok h
  · exact distinct_resolve hlibrary hresolve hschema
  · have hresolved := distinct_resolve hlibrary hresolve hschema
    refine distinct_resolve hlibrary hitems (distinct_of_mem_typeChildren hresolved _ ?_)
    rw [typeChildren_of_array harray]
    exact List.mem_singleton_self _

/-- **The type tree of a table is the tree of its declared properties.** The table holds rows of
object kind. Their properties have one listing, of all properties that they declare, and its entries
match the nodes of the tree one by one, in order: same path, a list exactly where the property is of
array kind, and a node of the kind of what the property holds. The paths are different, there are
`fieldCount` of them, and the longest has length `maxDepth`. Every composite has members, with
different names, and no property holds a list of what is of array kind again. -/
theorem tableRoot_declared (hlibrary : library.Distinct) {document : String} {schema : Json}
    (hschema : schema.Distinct) {root : TypeTree}
    (h : library.tableRoot document schema = .ok root) :
    ∃ isArray rows listing,
      library.Holds ⟨document, schema⟩ isArray rows ∧ schemaKind? rows.node = some "object" ∧
      (∀ other, library.Lists rows.fields other ↔ other = listing) ∧
      (∀ declared, declared ∈ listing ↔ library.Declares rows.fields declared) ∧
      List.Forall₂ Matches listing root.nodes ∧
      (listing.map Declared.path).Nodup ∧
      root.fieldCount = listing.length ∧
      (∀ declared ∈ listing, declared.path.length ≤ root.maxDepth) ∧
      (∃ declared ∈ listing, declared.path.length = root.maxDepth) ∧
      root.Everywhere TypeTree.Proper ∧
      ∀ declared ∈ listing, schemaKind? declared.inner.node ≠ some "array" := by
  obtain ⟨row, properties, members, field, hrow, hproperties, hmembers, rfl⟩ := tableRoot_eq_ok h
  obtain ⟨isArray, hholds⟩ := exists_holds_of_rowSchema hrow
  have hkind := (rowSchema_eq_ok hrow).1
  have hdistinct := distinct_of_rowSchema hlibrary hschema hrow
  have hproper : (TypeTree.composite field members).Everywhere TypeTree.Proper :=
    everywhere_of_buildMembers hdistinct hproperties (fun _ _ _ _ htree => name_buildWithin htree)
      (fun _ _ _ _ hchild htree => proper_buildWithin hlibrary hchild htree) hmembers field
  obtain ⟨listing, hlists, hmatches⟩ := exists_lists_of_buildMembers
    (fun _ _ _ _ htree => name_buildWithin htree)
    (fun _ _ _ _ htree => exists_depicts_of_buildWithin htree) hmembers
  replace hlists : library.Lists row.place.fields listing := by
    rw [fields_of_properties hkind hproperties]
    exact hlists
  replace hmatches : List.Forall₂ Matches listing (TypeTree.composite field members).nodes := by
    rw [TypeTree.nodes]
    exact hmatches
  have hpaths := Matches.paths_eq hmatches
  refine ⟨isArray, row.place, listing, hholds, hkind,
    fun other => ⟨fun hother => hother.unique hlists, fun heq => heq ▸ hlists⟩,
    fun declared => hlists.mem_iff, hmatches, ?_, ?_, ?_, ?_, hproper, ?_⟩
  · rw [hpaths]
    exact TypeTree.nodup_paths hproper
  · rw [← TypeTree.length_nodes, hmatches.length_eq]
  · intro declared hdeclared
    obtain ⟨entry, hentry, heq⟩ : ∃ entry ∈ (TypeTree.composite field members).nodes,
        entry.1 = declared.path := by
      rw [← List.mem_map (f := Prod.fst), ← hpaths]
      exact List.mem_map_of_mem hdeclared
    rw [← heq]
    exact TypeTree.length_path_le hproper entry hentry
  · rcases TypeTree.exists_length_path_eq hproper with hzero | ⟨entry, hentry, hlength⟩
    · rw [TypeTree.maxDepth] at hzero
      omega
    · obtain ⟨declared, hdeclared, heq⟩ : ∃ declared ∈ listing, declared.path = entry.1 := by
        rw [← List.mem_map, hpaths]
        exact List.mem_map_of_mem hentry
      exact ⟨declared, hdeclared, by rw [heq, hlength]⟩
  · exact ((List.forall₂_and_left _ _).1 (hmatches.imp fun declared entry hmatch =>
      ⟨hmatch.2.2.ne_array, hmatch⟩)).1

/-- A lot with parts, whose schema is that of another document. -/
def lotDocuments : Entries Json :=
  [("lot", .obj [("properties", .obj [("id", .obj [("type", .str "integer")]),
      ("parts", .obj [("$ref", .str "#/definitions/parts")])]),
    ("definitions", .obj [("parts", .obj [("items", .obj [("$ref", .str "part")])])])]),
    ("part", .obj [("properties", .obj [("code", .obj [("type", .str "string")])])])]

/-- The type tree of a table of lots. -/
def lotRoot : TypeTree :=
  .composite { name := "_root", isArray := true } [.leaf { name := "id" } .integer,
    .composite { name := "parts", isArray := true, typeName := some "part" }
      [.leaf { name := "code" } .string]]

theorem tableRoot_declared_lots :
    (ofDocuments lotDocuments 9).Distinct ∧
    (Json.obj [("items", .obj [("$ref", .str "lot")])]).Distinct ∧
    (ofDocuments lotDocuments 9).tableRoot "lots" (.obj [("items", .obj [("$ref", .str "lot")])]) =
      .ok lotRoot ∧ lotRoot.fieldCount = 3 ∧ lotRoot.maxDepth = 2 ∧
    ∃ rows listing,
      (∀ other, (ofDocuments lotDocuments 9).Lists (SchemaPlace.fields rows) other ↔
        other = listing) ∧
      listing.map Declared.path = [["id"], ["parts"], ["parts", "code"]] := by
  have hlibrary : (ofDocuments lotDocuments 9).Distinct :=
    distinct_ofDocuments (by simp [lotDocuments]) 9
  have hschema : (Json.obj [("items", .obj [("$ref", .str "lot")])]).Distinct := by simp
  have hroot : (ofDocuments lotDocuments 9).tableRoot "lots"
      (.obj [("items", .obj [("$ref", .str "lot")])]) = .ok lotRoot := rfl
  obtain ⟨_, rows, listing, -, -, hlists, -, hmatches, -⟩ :=
    tableRoot_declared hlibrary hschema hroot
  exact ⟨hlibrary, hschema, hroot, rfl, rfl, rows, listing, hlists, Matches.paths_eq hmatches⟩

end Library

end TableExport
