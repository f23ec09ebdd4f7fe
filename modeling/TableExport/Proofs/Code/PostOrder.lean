import Mathlib
import TableExport.Proofs.Code.Closure

/-!
# The order of declarations

The objects of a table are the rows and what is below them through objects without a name; what has
the name of a definition is declared elsewhere, with all that is below it. An object has a place,
the positions of the fields that lead to it (`TypeTree.objectAt?`). The declarations of a table are
those of its objects, one each, in post-order (`Naming.postOrdered_tableFile`).

* `TypeTree.objectPlaces` lists the places of the objects. It lists all of them
  (`mem_objectPlaces`), what is below an object before the object (`pairwise_objectPlaces`).
* `Naming.forall₂_declareObject`: the declarations go through the places in this order.
-/

namespace TableExport

namespace TypeTree

/-! ## Places -/

/-- Whether a node is an object without a name of its own. -/
def isAnonymous (tree : TypeTree) : Bool := !tree.isLeaf && tree.field.typeName.isNone

/-- The field at a position, if it is an object without a name. -/
def nested? (tree : TypeTree) (i : Nat) : Option TypeTree := tree.members[i]?.filter isAnonymous

/-- The object at a place: the one that the positions of fields lead to, where each of the fields is
an object without a name. -/
def objectAt? : TypeTree → List Nat → Option TypeTree
  | tree, [] => some tree
  | tree, i :: place => (tree.nested? i).bind fun member => member.objectAt? place

/-- Post-order: what is below a node comes before the node, and what is below a field before what is
below a later field. -/
inductive Before : List Nat → List Nat → Prop
  | node {i : Nat} {place : List Nat} : Before (i :: place) []
  | field {i j : Nat} {place other : List Nat} : i < j → Before (i :: place) (j :: other)
  | deeper {i : Nat} {place other : List Nat} : Before place other →
    Before (i :: place) (i :: other)

mutual

/-- The places of the objects of a tree, those below an object before it. -/
def objectPlaces : TypeTree → List (List Nat)
  | .leaf .. => [[]]
  | .composite _ members => nestedPlaces 0 members ++ [[]]

/-- The places of the objects among fields and below them, where the first field has a position. -/
def nestedPlaces (i : Nat) : List TypeTree → List (List Nat)
  | [] => []
  | member :: rest =>
    (if member.isAnonymous then member.objectPlaces.map (i :: ·) else []) ++
      nestedPlaces (i + 1) rest

end

variable {tree member node : TypeTree} {i : Nat} {place other : List Nat}

theorem nested?_eq_some :
    tree.nested? i = some member ↔ tree.members[i]? = some member ∧ member.isAnonymous = true :=
  Option.filter_eq_some_iff

/-- An object without a name is a composite without the name of a type. -/
theorem isAnonymous_iff :
    tree.isAnonymous = true ↔ ∃ field members, tree = .composite field members ∧
      field.typeName = none := by
  cases tree <;> simp [isAnonymous, isLeaf, field]

@[simp] theorem objectAt?_nil (tree : TypeTree) : tree.objectAt? [] = some tree := rfl

@[simp] theorem objectAt?_cons (tree : TypeTree) (i : Nat) (place : List Nat) :
    tree.objectAt? (i :: place) = (tree.nested? i).bind fun member => member.objectAt? place := rfl

theorem objectAt?_append (tree : TypeTree) (place other : List Nat) :
    tree.objectAt? (place ++ other) =
      (tree.objectAt? place).bind fun node => node.objectAt? other := by
  induction place generalizing tree with
  | nil => rfl
  | cons i place ih => simp [ih, Option.bind_assoc]

/-- The fields of an object that are objects without a name are at the places right below it. -/
theorem objectAt?_concat (h : tree.objectAt? place = some node) (i : Nat) :
    tree.objectAt? (place ++ [i]) = node.nested? i := by
  rw [objectAt?_append, h]
  simp

/-- A node does not come before what is below it, nor before itself. -/
theorem Before.not_append (place other : List Nat) : ¬ Before place (place ++ other) := by
  induction place with
  | nil => rintro ⟨⟩
  | cons i place ih =>
    rintro (_ | hlt | hbelow)
    · exact lt_irrefl i hlt
    · exact ih hbelow

theorem Before.irrefl (place : List Nat) : ¬ Before place place := by
  simpa using Before.not_append place []

/-! ## The list of places -/

theorem mem_nestedPlaces {members : List TypeTree} :
    place ∈ nestedPlaces i members ↔ ∃ k rest member, place = (i + k) :: rest ∧
      members[k]? = some member ∧ member.isAnonymous = true ∧ rest ∈ member.objectPlaces := by
  induction members generalizing i with
  | nil => simp [nestedPlaces]
  | cons first others ih =>
    rw [nestedPlaces, List.mem_append, ih]
    constructor
    · rintro (hfirst | ⟨k, rest, member, rfl, hmember, hrest⟩)
      · split at hfirst
        · rename_i hanonymous
          obtain ⟨rest, hrest, rfl⟩ := List.mem_map.1 hfirst
          exact ⟨0, rest, first, rfl, rfl, hanonymous, hrest⟩
        · cases hfirst
      · exact ⟨k + 1, rest, member, by rw [Nat.add_right_comm, Nat.add_assoc], hmember, hrest⟩
    · rintro ⟨_ | k, rest, member, rfl, hmember, hanonymous, hrest⟩
      · obtain rfl := Option.some.inj hmember
        left
        rw [if_pos hanonymous]
        exact List.mem_map_of_mem hrest
      · exact Or.inr ⟨k, rest, member, by rw [Nat.add_right_comm, Nat.add_assoc], hmember,
          hanonymous, hrest⟩

/-- **The places of all objects are listed.** -/
theorem mem_objectPlaces : place ∈ tree.objectPlaces ↔ ∃ node, tree.objectAt? place = some node := by
  induction place generalizing tree with
  | nil => cases tree <;> simp [objectPlaces]
  | cons i place ih =>
    cases tree with
    | leaf field type => simp [objectPlaces, nested?, members]
    | composite field members =>
      rw [objectPlaces, List.mem_append, mem_nestedPlaces]
      simp only [List.mem_singleton, List.cons_ne_nil, or_false, zero_add, List.cons.injEq,
        objectAt?_cons, Option.bind_eq_some_iff, nested?_eq_some]
      constructor
      · rintro ⟨k, rest, member, ⟨rfl, rfl⟩, hmember, hanonymous, hrest⟩
        obtain ⟨node, hnode⟩ := ih.1 hrest
        exact ⟨node, member, ⟨hmember, hanonymous⟩, hnode⟩
      · rintro ⟨node, member, ⟨hmember, hanonymous⟩, hnode⟩
        exact ⟨i, place, member, ⟨rfl, rfl⟩, hmember, hanonymous, ih.2 ⟨node, hnode⟩⟩

mutual

/-- **The places are listed in post-order.** -/
theorem pairwise_objectPlaces : ∀ tree : TypeTree, tree.objectPlaces.Pairwise Before
  | .leaf .. => List.pairwise_singleton _ _
  | .composite _ members => by
    rw [objectPlaces, List.pairwise_append]
    refine ⟨pairwise_nestedPlaces 0 members, List.pairwise_singleton _ _, ?_⟩
    intro place hplace other hother
    obtain ⟨k, rest, -, rfl, -⟩ := mem_nestedPlaces.1 hplace
    rw [List.mem_singleton.1 hother]
    exact .node

theorem pairwise_nestedPlaces (i : Nat) :
    ∀ members : List TypeTree, (nestedPlaces i members).Pairwise Before
  | [] => List.Pairwise.nil
  | member :: rest => by
    rw [nestedPlaces, List.pairwise_append]
    refine ⟨?_, pairwise_nestedPlaces (i + 1) rest, ?_⟩
    · split
      · exact List.pairwise_map.2 ((pairwise_objectPlaces member).imp .deeper)
      · exact List.Pairwise.nil
    · intro place hplace other hother
      obtain ⟨k, _, -, rfl, -⟩ := mem_nestedPlaces.1 hother
      split at hplace
      · obtain ⟨_, -, rfl⟩ := List.mem_map.1 hplace
        exact .field (by omega)
      · cases hplace

end

theorem nodup_objectPlaces (tree : TypeTree) : tree.objectPlaces.Nodup :=
  (pairwise_objectPlaces tree).imp fun {place other} hbefore heq => by
    rw [heq] at hbefore
    exact Before.irrefl other hbefore

theorem getLast?_objectPlaces (tree : TypeTree) : tree.objectPlaces.getLast? = some [] := by
  cases tree <;> simp [objectPlaces]

/-- What is below an object is listed before it. -/
theorem exists_lt_of_objectPlaces {n : Nat} (hplace : tree.objectPlaces[n]? = some place)
    (hbelow : place ++ other ∈ tree.objectPlaces) (hne : other ≠ []) :
    ∃ m < n, tree.objectPlaces[m]? = some (place ++ other) := by
  obtain ⟨m, hm⟩ := List.getElem?_of_mem hbelow
  refine ⟨m, ?_, hm⟩
  obtain ⟨hn, hplace⟩ := List.getElem?_eq_some_iff.1 hplace
  obtain ⟨hm, hbelow⟩ := List.getElem?_eq_some_iff.1 hm
  rcases lt_trichotomy m n with hlt | rfl | hgt
  · exact hlt
  · rw [hplace] at hbelow
    exact absurd (List.self_eq_append_right.1 hbelow) hne
  · have hbefore := List.pairwise_iff_getElem.1 (pairwise_objectPlaces tree) n m hn hm hgt
    rw [hplace, hbelow] at hbefore
    exact absurd hbefore (Before.not_append place other)

end TypeTree

/-! ## Declarations -/

namespace Naming

variable (naming : Naming)

/-- The name of the object at a place: the name of the uppermost object and the names of the fields
that lead to the place. -/
def objectName (owner : String) : TypeTree → List Nat → String
  | _, [] => owner
  | tree, i :: place =>
    match tree.members[i]? with
    | some member => objectName (nestedName owner member.name) member place
    | none => owner

/-- The declaration of an object. -/
def objectDeclaration (name : String) (node : TypeTree) : Declaration :=
  .object name node.field.description node.field.isStruct (node.members.map (naming.objectMember name))

/-- A declaration is that of the object at a place. -/
def Declares (owner : String) (tree : TypeTree) (place : List Nat) (declaration : Declaration) :
    Prop :=
  ∃ node, tree.objectAt? place = some node ∧
    declaration = naming.objectDeclaration (objectName owner tree place) node

variable {naming} {owner : String} {tree member node : TypeTree} {i : Nat} {place : List Nat}

theorem objectName_cons (h : tree.members[i]? = some member) :
    objectName owner tree (i :: place) =
      objectName (nestedName owner member.name) member place := by
  rw [objectName, h]

/-- An object below another one is named for the field. -/
theorem objectName_concat (h : tree.objectAt? place = some node)
    (hmember : node.members[i]? = some member) :
    objectName owner tree (place ++ [i]) = nestedName (objectName owner tree place) member.name := by
  induction place generalizing owner tree with
  | nil =>
    obtain rfl := Option.some.inj h
    rw [List.nil_append, objectName_cons hmember, objectName, objectName]
  | cons j place ih =>
    obtain ⟨first, hfirst, hnode⟩ := Option.bind_eq_some_iff.1 h
    have hfirst := (TypeTree.nested?_eq_some.1 hfirst).1
    rw [List.cons_append, objectName_cons hfirst, objectName_cons hfirst, ih hnode]

/-- What is declared below a field is declared below the object that has the field. -/
theorem Declares.below {declaration : Declaration} (h : tree.nested? i = some member)
    (hdeclares : naming.Declares (nestedName owner member.name) member place declaration) :
    naming.Declares owner tree (i :: place) declaration := by
  obtain ⟨node, hnode, rfl⟩ := hdeclares
  refine ⟨node, ?_, ?_⟩
  · rw [TypeTree.objectAt?_cons, h]
    exact hnode
  · rw [objectName_cons (TypeTree.nested?_eq_some.1 h).1]

theorem declareObject_eq (name : String) (field : Field) (members : List TypeTree) :
    naming.declareObject name (.composite field members) = naming.declareNested name members ++
      [naming.objectDeclaration name (.composite field members)] := by
  rw [declareObject]
  rfl

theorem declareNested_cons (owner : String) (member : TypeTree) (rest : List TypeTree) :
    naming.declareNested owner (member :: rest) =
      (if member.isAnonymous then naming.declareObject (nestedName owner member.name) member
        else []) ++ naming.declareNested owner rest := by
  cases member with
  | leaf => rw [declareNested]; rfl
  | composite field members =>
    rw [declareNested]
    cases hname : field.typeName <;>
      simp [TypeTree.isAnonymous, TypeTree.isLeaf, TypeTree.field, TypeTree.name, hname]

mutual

/-- **The declarations of an object are those of the objects of its tree, in post-order.** -/
theorem forall₂_declareObject (owner : String) : ∀ tree : TypeTree,
    List.Forall₂ (naming.Declares owner tree) tree.objectPlaces (naming.declareObject owner tree)
  | .leaf field type => by
    rw [TypeTree.objectPlaces, declareObject]
    exact .cons ⟨_, rfl, rfl⟩ .nil
  | .composite field members => by
    rw [TypeTree.objectPlaces, declareObject_eq]
    exact List.rel_append (forall₂_declareNested owner (.composite field members) 0 members rfl)
      (.cons ⟨_, rfl, rfl⟩ .nil)

/-- So it is of the objects below the fields of an object from a position on. -/
theorem forall₂_declareNested (owner : String) (tree : TypeTree) (i : Nat) :
    ∀ members : List TypeTree, tree.members.drop i = members →
    List.Forall₂ (naming.Declares owner tree) (TypeTree.nestedPlaces i members)
      (naming.declareNested owner members)
  | [] => fun _ => by
    rw [TypeTree.nestedPlaces, declareNested]
    exact .nil
  | member :: rest => fun hdrop => by
    have hmember : tree.members[i]? = some member := by
      rw [← List.head?_drop, hdrop, List.head?_cons]
    have hrest : tree.members.drop (i + 1) = rest := by
      rw [← List.tail_drop, hdrop, List.tail_cons]
    rw [TypeTree.nestedPlaces, declareNested_cons]
    refine List.rel_append ?_ (forall₂_declareNested owner tree (i + 1) rest hrest)
    split
    · rename_i hanonymous
      rw [List.forall₂_map_left_iff]
      exact (forall₂_declareObject (nestedName owner member.name) member).imp fun _ _ =>
        Declares.below (TypeTree.nested?_eq_some.2 ⟨hmember, hanonymous⟩)
    · exact .nil

end

/-- A place and the declaration at its position belong together. -/
theorem exists_declares (naming : Naming) (owner : String) {n : Nat}
    (hplace : tree.objectPlaces[n]? = some place) :
    ∃ declaration, (naming.declareObject owner tree)[n]? = some declaration ∧
      naming.Declares owner tree place declaration := by
  have hall : List.Forall₂ (naming.Declares owner tree) tree.objectPlaces
      (naming.declareObject owner tree) := forall₂_declareObject owner tree
  obtain ⟨hn, rfl⟩ := List.getElem?_eq_some_iff.1 hplace
  have hn' := hall.length_eq ▸ hn
  exact ⟨_, List.getElem?_eq_getElem hn', hall.get hn hn'⟩

/-- A field of a declaration is that of a member: it has its name and its array mark, and says the
same about it. -/
structure Lists (member : TypeTree) (field : ObjectMember) : Prop where
  name : field.name = member.name
  isArray : field.isArray = member.isArray
  comment : field.comment = member.field.description

/-- A declaration of a node lists the members in order. -/
def Describes (node : TypeTree) (declaration : Declaration) : Prop :=
  ∃ name fields, declaration = .object name node.field.description node.field.isStruct fields ∧
    List.Forall₂ Lists node.members fields

/-- Declarations of the objects of a tree, one at each place of a list. -/
structure PostOrdered (root : TypeTree) (places : List (List Nat))
    (declarations : List Declaration) (rowType : String) : Prop where
  /-- The places are those of the objects: the root, and what is below it through objects without a
  name. -/
  complete : ∀ place, place ∈ places ↔ ∃ node, root.objectAt? place = some node
  once : places.Nodup
  ordered : places.Pairwise TypeTree.Before
  described : List.Forall₂ (fun place declaration =>
    ∃ node, root.objectAt? place = some node ∧ Describes node declaration) places declarations
  /-- A field with the name of a type has no place, and nothing below it has one. -/
  named : ∀ place node i member rest, root.objectAt? place = some node →
    node.members[i]? = some member → member.field.typeName.isSome → place ++ i :: rest ∉ places
  /-- A field that is an object without a name has the type that is declared for it before. -/
  linked : ∀ (n i : Nat) place node member (declaration : Declaration), places[n]? = some place →
    declarations[n]? = some declaration → root.objectAt? place = some node →
    node.members[i]? = some member → member.isAnonymous →
    ∃ m < n, ∃ nested : Declaration, places[m]? = some (place ++ [i]) ∧ declarations[m]? = some nested ∧
      declaration.usedTypes[i]? = some nested.name
  last : places.getLast? = some [] ∧ declarations.getLast?.map Declaration.name = some rowType

theorem describes_objectDeclaration (name : String) (node : TypeTree) :
    Describes node (naming.objectDeclaration name node) := by
  refine ⟨name, _, rfl, ?_⟩
  rw [List.forall₂_map_right_iff, List.forall₂_same]
  exact fun member _ => ⟨rfl, rfl, rfl⟩

/-- The type of a field that is an object without a name is the one declared for it. -/
theorem memberType_of_isAnonymous (h : member.isAnonymous = true) :
    naming.memberType owner member = nestedName owner member.name := by
  obtain ⟨field, members, rfl, hname⟩ := TypeTree.isAnonymous_iff.1 h
  simp [memberType, TypeTree.field, hname]

/-- What has the name of a type is not an object without a name, so no place goes through it. -/
theorem objectAt?_of_named {rest : List Nat} (hnode : tree.objectAt? place = some node)
    (hmember : node.members[i]? = some member) (hname : member.field.typeName.isSome) :
    tree.objectAt? (place ++ i :: rest) = none := by
  have hnested : node.nested? i = none := by
    rw [TypeTree.nested?, hmember, Option.filter_some]
    cases htype : member.field.typeName with
    | none =>
      rw [htype] at hname
      cases hname
    | some typeName => simp [TypeTree.isAnonymous, htype]
  rw [TypeTree.objectAt?_append, hnode]
  simp [hnested]

/-- The object of a field without the name of a type is declared before the object that has the
field, and under the name that the field has for a type. -/
theorem exists_declared_before {n : Nat} {declaration : Declaration}
    (hplace : tree.objectPlaces[n]? = some place)
    (hdeclaration : (naming.declareObject owner tree)[n]? = some declaration)
    (hnode : tree.objectAt? place = some node) (hmember : node.members[i]? = some member)
    (hanonymous : member.isAnonymous = true) :
    ∃ m < n, ∃ nested : Declaration, tree.objectPlaces[m]? = some (place ++ [i]) ∧
      (naming.declareObject owner tree)[m]? = some nested ∧
      declaration.usedTypes[i]? = some nested.name := by
  obtain ⟨_, hdeclared, node', hnode', rfl⟩ := exists_declares naming owner hplace
  rw [hdeclared] at hdeclaration
  cases hdeclaration
  rw [hnode] at hnode'
  cases hnode'
  -- the field is itself an object of the tree, so it is declared, and earlier
  have hbelow : tree.objectAt? (place ++ [i]) = some member := by
    rw [TypeTree.objectAt?_concat hnode, TypeTree.nested?_eq_some]
    exact ⟨hmember, hanonymous⟩
  obtain ⟨m, hlt, hm⟩ := TypeTree.exists_lt_of_objectPlaces hplace
    (TypeTree.mem_objectPlaces.2 ⟨member, hbelow⟩) (List.cons_ne_nil _ _)
  obtain ⟨nested, hnested, own, -, rfl⟩ := exists_declares naming owner hm
  refine ⟨m, hlt, _, hm, hnested, ?_⟩
  simp only [objectDeclaration, Declaration.usedTypes, Declaration.name, List.getElem?_map,
    hmember, Option.map_some, objectMember, memberType_of_isAnonymous hanonymous,
    objectName_concat hnode hmember]

/-- An object is declared after all that is declared below it. -/
theorem getLast?_declareObject (naming : Naming) (owner : String) (tree : TypeTree) :
    (naming.declareObject owner tree).getLast? = some (naming.objectDeclaration owner tree) := by
  cases tree with
  | leaf field type =>
    rw [declareObject]
    rfl
  | composite field members => rw [declareObject_eq, List.getLast?_concat]

/-- **The declarations of a table are those of its objects in post-order.** The rows come last. -/
theorem postOrdered_tableFile (naming : Naming) (table : String) (root : TypeTree) :
    PostOrdered root root.objectPlaces (naming.tableFile table root).declarations
      (naming.typeName table) where
  complete _ := TypeTree.mem_objectPlaces
  once := TypeTree.nodup_objectPlaces root
  ordered := TypeTree.pairwise_objectPlaces root
  described := (forall₂_declareObject _ root).imp fun _ _ ⟨node, hnode, hdeclaration⟩ =>
    ⟨node, hnode, hdeclaration ▸ describes_objectDeclaration _ node⟩
  named place node i member rest hnode hmember hname := by
    rw [TypeTree.mem_objectPlaces, objectAt?_of_named hnode hmember hname]
    rintro ⟨_, ⟨⟩⟩
  linked _ _ _ _ _ _ hplace hdeclaration hnode hmember hanonymous :=
    exists_declared_before hplace hdeclaration hnode hmember hanonymous
  last := by
    refine ⟨TypeTree.getLast?_objectPlaces root, ?_⟩
    rw [tableFile, getLast?_declareObject]
    rfl

end Naming

end TableExport
