import TableExport.Proofs.Code.PostOrder
import TableExport.Proofs.Table.FieldOrder

/-!
# Names of declarations

An object without a name is named for the fields that lead to it: each of them adds an underscore
and its name with the first letter in upper case (`TypeTree.nameBelow`). Different fields can spell
the same text, by their first letters (`size` and `Size`) or by an underscore of their own (`a_B`,
and `b` below `a`), and then two declarations have one name (`Naming.not_nodup_sizes`). Names are
different just when the ways to the objects spell different texts, and they do where no field of an
object starts with the name of another one and an underscore (`Naming.nodup_tableFile`).

* `Naming.names_declareObject`: the names of the declarations.
* `TypeTree.NamesApart.eq_of_nameBelow`: fields that are apart spell different texts.
-/

namespace TableExport

/-- Names of which neither is the other one or its start with an underscore after it, when their
first letters are in upper case. -/
def ApartNames (first second : String) : Prop :=
  ¬ (capitalize first).toList ++ ['_'] <+: (capitalize second).toList ++ ['_'] ∧
    ¬ (capitalize second).toList ++ ['_'] <+: (capitalize first).toList ++ ['_']

instance (first second : String) : Decidable (ApartNames first second) :=
  inferInstanceAs (Decidable (_ ∧ _))

theorem ApartNames.symm {first second : String} (h : ApartNames first second) :
    ApartNames second first := ⟨h.2, h.1⟩

/-- Texts that go on with an underscore, or not at all, are different after names that are apart. -/
theorem ApartNames.append_ne {first second : String} (h : ApartNames first second)
    {more more' : List Char} (hmore : ∀ c ∈ more.head?, c = '_') (hmore' : ∀ c ∈ more'.head?, c = '_') :
    (capitalize first).toList ++ more ≠ (capitalize second).toList ++ more' := by
  have hstart : ∀ {name other rest : List Char}, other = name ++ rest →
      (∀ c ∈ rest.head?, c = '_') → name ++ ['_'] <+: other ++ ['_'] := by
    rintro name other (_ | ⟨c, rest⟩) rfl hrest
    · rw [List.append_nil]
    · obtain rfl := hrest c rfl
      exact ⟨rest ++ ['_'], by simp⟩
  intro heq
  rcases List.append_eq_append_iff.1 heq with ⟨rest, hother, hrest⟩ | ⟨rest, hother, hrest⟩
  · refine h.1 (hstart hother fun c hc => hmore c ?_)
    rw [hrest, List.head?_append, hc]
    rfl
  · refine h.2 (hstart hother fun c hc => hmore' c ?_)
    rw [hrest, List.head?_append, hc]
    rfl

namespace TypeTree

/-- What the fields on the way to a place add to the name of an object. -/
def nameBelow : TypeTree → List Nat → List Char
  | _, [] => []
  | tree, i :: place =>
    match tree.members[i]? with
    | some member => '_' :: (capitalize member.name).toList ++ member.nameBelow place
    | none => []

/-- Among the fields of each object those that are objects without a name have names that are
apart. -/
def NamesApart (root : TypeTree) : Prop :=
  ∀ place node, root.objectAt? place = some node →
    node.members.Pairwise fun first second =>
      first.isAnonymous → second.isAnonymous → ApartNames first.name second.name

instance (root : TypeTree) : Decidable root.NamesApart :=
  decidable_of_iff (∀ place ∈ root.objectPlaces, ∀ node ∈ root.objectAt? place,
    node.members.Pairwise fun first second =>
      first.isAnonymous → second.isAnonymous → ApartNames first.name second.name)
    ⟨fun h place node hnode => h place (mem_objectPlaces.2 ⟨node, hnode⟩) node hnode,
      fun h place _ node hnode => h place node hnode⟩

variable {tree member first second : TypeTree} {i j : Nat} {place other : List Nat}

theorem nameBelow_cons (h : tree.members[i]? = some member) :
    tree.nameBelow (i :: place) = '_' :: (capitalize member.name).toList ++ member.nameBelow place := by
  rw [nameBelow, h]

theorem head?_nameBelow (tree : TypeTree) (place : List Nat) :
    ∀ c ∈ (tree.nameBelow place).head?, c = '_' := by
  cases place with
  | nil => rintro c ⟨⟩
  | cons i place =>
    rw [nameBelow]
    split
    · rintro c ⟨⟩
      rfl
    · rintro c ⟨⟩

/-- Two fields of an object that are objects without a name have names that are apart. -/
theorem NamesApart.apart (h : tree.NamesApart) (hfirst : tree.nested? i = some first)
    (hsecond : tree.nested? j = some second) (hne : i ≠ j) :
    ApartNames first.name second.name := by
  obtain ⟨hfirst, hnone⟩ := nested?_eq_some.1 hfirst
  obtain ⟨hsecond, hnone'⟩ := nested?_eq_some.1 hsecond
  obtain ⟨hi, rfl⟩ := List.getElem?_eq_some_iff.1 hfirst
  obtain ⟨hj, rfl⟩ := List.getElem?_eq_some_iff.1 hsecond
  have hpairs := List.pairwise_iff_getElem.1 (h [] tree rfl)
  rcases lt_or_gt_of_ne hne with hlt | hlt
  · exact hpairs i j hi hj hlt hnone hnone'
  · exact (hpairs j i hj hi hlt hnone' hnone).symm

theorem NamesApart.nested (h : tree.NamesApart) (hmember : tree.nested? i = some member) :
    member.NamesApart := by
  intro place node hnode
  apply h (i :: place) node
  rw [objectAt?_cons, hmember]
  exact hnode

/-- **Fields that are apart spell different texts on different ways.** -/
theorem NamesApart.eq_of_nameBelow (h : tree.NamesApart) {node node' : TypeTree}
    (hnode : tree.objectAt? place = some node) (hnode' : tree.objectAt? other = some node')
    (heq : tree.nameBelow place = tree.nameBelow other) : place = other := by
  induction place generalizing tree other with
  | nil =>
    cases other with
    | nil => rfl
    | cons j other =>
      obtain ⟨second, hsecond, -⟩ := Option.bind_eq_some_iff.1 hnode'
      rw [nameBelow_cons (nested?_eq_some.1 hsecond).1] at heq
      cases heq
  | cons i place ih =>
    obtain ⟨first, hfirst, hnode⟩ := Option.bind_eq_some_iff.1 hnode
    rw [nameBelow_cons (nested?_eq_some.1 hfirst).1] at heq
    cases other with
    | nil => cases heq
    | cons j other =>
      obtain ⟨second, hsecond, hnode'⟩ := Option.bind_eq_some_iff.1 hnode'
      rw [nameBelow_cons (nested?_eq_some.1 hsecond).1] at heq
      have heq := (List.cons.inj heq).2
      by_cases hij : i = j
      · subst hij
        rw [hfirst] at hsecond
        cases hsecond
        rw [ih (h.nested hfirst) hnode hnode' (List.append_cancel_left heq)]
      · exact absurd heq ((h.apart hfirst hsecond hij).append_ne (head?_nameBelow _ _)
          (head?_nameBelow _ _))

end TypeTree

namespace Naming

variable {naming : Naming} {owner : String} {tree node : TypeTree} {place : List Nat}

theorem objectName_eq (h : tree.objectAt? place = some node) :
    objectName owner tree place = owner ++ String.ofList (tree.nameBelow place) := by
  induction place generalizing owner tree with
  | nil => simp [objectName, TypeTree.nameBelow]
  | cons i place ih =>
    obtain ⟨member, hmember, hnode⟩ := Option.bind_eq_some_iff.1 h
    have hmember := (TypeTree.nested?_eq_some.1 hmember).1
    rw [objectName_cons hmember, TypeTree.nameBelow_cons hmember, ih hnode]
    apply String.ext
    simp [nestedName]

/-- **The declarations below an object are named for the ways to them.** -/
theorem names_declareObject (naming : Naming) (owner : String) (tree : TypeTree) :
    (naming.declareObject owner tree).map Declaration.name =
      tree.objectPlaces.map fun place => owner ++ String.ofList (tree.nameBelow place) := by
  rw [← List.forall₂_eq_eq_eq, List.forall₂_map_left_iff, List.forall₂_map_right_iff]
  refine (forall₂_declareObject owner tree).flip.imp ?_
  rintro _ place ⟨node, hnode, rfl⟩
  exact objectName_eq hnode

theorem nodup_names_declareObject (naming : Naming) (owner : String) (tree : TypeTree) :
    ((naming.declareObject owner tree).map Declaration.name).Nodup ↔
      ∀ place node other node', tree.objectAt? place = some node →
        tree.objectAt? other = some node' → tree.nameBelow place = tree.nameBelow other →
        place = other := by
  rw [names_declareObject, List.nodup_map_iff_inj_on (TypeTree.nodup_objectPlaces tree)]
  constructor
  · intro h place node other node' hnode hnode' heq
    exact h place (TypeTree.mem_objectPlaces.2 ⟨node, hnode⟩) other
      (TypeTree.mem_objectPlaces.2 ⟨node', hnode'⟩) (by rw [heq])
  · intro h place hplace other hother heq
    obtain ⟨node, hnode⟩ := TypeTree.mem_objectPlaces.1 hplace
    obtain ⟨node', hnode'⟩ := TypeTree.mem_objectPlaces.1 hother
    refine h place node other node' hnode hnode' ?_
    have htexts := congrArg String.toList heq
    simpa using htexts

/-- **The declarations of a table have different names just when the ways to its objects spell
different texts**, and they do where the names of the fields are apart. -/
theorem nodup_tableFile (naming : Naming) (table : String) (root : TypeTree) :
    (((naming.tableFile table root).declarations.map Declaration.name).Nodup ↔
      ∀ place node other node', root.objectAt? place = some node →
        root.objectAt? other = some node' → root.nameBelow place = root.nameBelow other →
        place = other) ∧
    (root.NamesApart → ((naming.tableFile table root).declarations.map Declaration.name).Nodup) := by
  have hiff := nodup_names_declareObject naming (naming.typeName table) root
  exact ⟨hiff, fun hapart => hiff.2 fun _ _ _ _ hnode hnode' heq =>
    hapart.eq_of_nameBelow hnode hnode' heq⟩

/-- Items with their pieces, and with the pieces that are left. -/
def leftPieces : TypeTree :=
  .composite { name := TypeTree.rootName, isArray := true }
    [Stock.pieces, .composite { name := "left_pieces" } [Stock.size]]

theorem nodup_tableFile_pieces : leftPieces.NamesApart ∧
    ((Naming.tableFile ⟨"Ex"⟩ "Stock" leftPieces).declarations.map Declaration.name).Nodup := by
  have hapart : leftPieces.NamesApart := by decide +kernel
  exact ⟨hapart, (nodup_tableFile ⟨"Ex"⟩ "Stock" leftPieces).2 hapart⟩

/-- Items with two sizes whose names differ in the case of their first letters. -/
def sizes : TypeTree :=
  .composite { name := TypeTree.rootName, isArray := true }
    [Stock.size, .composite { name := "Size" } [Stock.field "weight"]]

/-- Fields with different names can be declared under one name. -/
theorem not_nodup_sizes : sizes.Distinct ∧
    ¬ ((Naming.tableFile ⟨""⟩ "Stock" sizes).declarations.map Declaration.name).Nodup := by
  have hfield : ∀ name, (Stock.field name).Distinct := fun _ => .mk List.nodup_nil nofun
  refine ⟨.mk (by decide) fun member hmember => ?_, by decide +kernel⟩
  rcases List.mem_pair.1 hmember with rfl | rfl
  · refine .mk (by decide) fun member hmember => ?_
    rcases List.mem_pair.1 hmember with rfl | rfl
    · exact hfield "width"
    · exact hfield "depth"
  · refine .mk (by decide) fun member hmember => ?_
    rw [List.mem_singleton.1 hmember]
    exact hfield "weight"

end Naming

end TableExport
