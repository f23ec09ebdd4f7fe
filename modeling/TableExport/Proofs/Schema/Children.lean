import TableExport.Proofs.Schema.Inlining
import TableExport.Proofs.Schema.Walks

/-!
# The nodes that inlining and typing go to

Inlining goes to every schema below a node (`inlineChildren`) and typing to the items of an array
and the properties of an object (`typeChildren`). Both are walks (`isWalk_inlineWithin`,
`isWalk_buildWithin`), and the nodes that they go to are smaller than the node that they are at.
-/

namespace TableExport

namespace Library

/-! ## Inlining -/

/-- The schemas below a keyword. -/
def valueChildren (keyword : String) (value : Json) : List Json :=
  if literalKeywords.contains keyword then []
  else
    match value with
    | .obj members =>
      if keyword = "properties" ∨ keyword = "patternProperties" then members.map Prod.snd
      else [value]
    | .arr items => items.filter fun item => item.obj?.isSome
    | _ => []

/-- The schemas below the keywords of an object, without its definitions. -/
def memberChildren : List (String × Json) → List Json
  | [] => []
  | (keyword, value) :: rest =>
    if keyword = "definitions" ∨ keyword = "$defs" then memberChildren rest
    else valueChildren keyword value ++ memberChildren rest

/-- The nodes that inlining goes to. -/
def inlineChildren : Json → List Json
  | .obj members => memberChildren members
  | _ => []

/-- What inlining makes of a resolved node, where `change` inlines the nodes below. -/
def inlineResolved (change : Unit → Json → Except SchemaError Json) (_ : Unit)
    (resolved : Resolved) : Except SchemaError Json :=
  match resolved.schema with
  | .obj members => do return .obj (← inlineMembers (change ()) members)
  | other => return other

section Inline

variable {change change' : Json → Except SchemaError Json}

/-- The same of a change that takes no other argument. -/
abbrev VisitsBy (change : Json → Except SchemaError Json) (nodes : List Json) {γ : Type}
    (result : Except SchemaError γ) : Prop :=
  Visits (fun _ : Unit => change) nodes result

theorem visits_mapMembers (members : List (String × Json)) :
    VisitsBy change (members.map Prod.snd) (mapMembers change members) := by
  induction members with
  | nil => exact Visits.pure []
  | cons member rest ih =>
    obtain ⟨name, value⟩ := member
    rw [mapMembers]
    exact (Visits.call () value).bind fun value => ih.map fun rest => (name, value) :: rest

theorem visits_mapItems (items : List Json) :
    VisitsBy change (items.filter fun item => item.obj?.isSome) (mapItems change items) := by
  induction items with
  | nil => exact Visits.pure []
  | cons item rest ih =>
    cases item with
    | obj members =>
      exact (Visits.call () (Json.obj members)).bind fun item => ih.map fun rest => item :: rest
    | _ => exact ih.map fun rest => _ :: rest

theorem visits_inlineValue (keyword : String) (value : Json) :
    VisitsBy change (valueChildren keyword value) (inlineValue change keyword value) := by
  rw [valueChildren.eq_def, inlineValue.eq_def]
  split
  · exact Visits.pure value
  · cases value with
    | obj members =>
      simp only
      split
      · exact (visits_mapMembers members).map Json.obj
      · exact Visits.call () (Json.obj members)
    | arr items => exact (visits_mapItems items).map Json.arr
    | _ => exact Visits.pure _

theorem visits_inlineMembers (members : List (String × Json)) :
    VisitsBy change (memberChildren members) (inlineMembers change members) := by
  induction members with
  | nil => exact Visits.pure []
  | cons member rest ih =>
    obtain ⟨keyword, value⟩ := member
    rw [memberChildren, inlineMembers]
    split
    · exact ih
    · exact (visits_inlineValue keyword value).bind fun value =>
        ih.map fun rest => (keyword, value) :: rest

theorem mapMembers_congr {members : List (String × Json)}
    (h : ∀ child ∈ members.map Prod.snd, change child = change' child) :
    mapMembers change members = mapMembers change' members := by
  induction members with
  | nil => rfl
  | cons member rest ih =>
    rw [List.map_cons, List.forall_mem_cons] at h
    rw [mapMembers, mapMembers, h.1, ih h.2]

theorem mapItems_congr {items : List Json}
    (h : ∀ child ∈ items.filter (fun item => item.obj?.isSome), change child = change' child) :
    mapItems change items = mapItems change' items := by
  induction items with
  | nil => rfl
  | cons item rest ih =>
    cases item with
    | obj members =>
      rw [List.filter_cons_of_pos rfl, List.forall_mem_cons] at h
      simp only [mapItems, h.1, ih h.2]
    | _ =>
      rw [List.filter_cons_of_neg Bool.false_ne_true] at h
      simp only [mapItems, ih h]

theorem inlineValue_congr {keyword : String} {value : Json}
    (h : ∀ child ∈ valueChildren keyword value, change child = change' child) :
    inlineValue change keyword value = inlineValue change' keyword value := by
  rw [valueChildren.eq_def] at h
  rw [inlineValue.eq_def, inlineValue.eq_def]
  split
  · rfl
  · rename_i hliteral
    rw [if_neg hliteral] at h
    cases value with
    | obj members =>
      simp only at h ⊢
      split
      · rename_i hproperties
        rw [if_pos hproperties] at h
        rw [mapMembers_congr h]
      · rename_i hproperties
        rw [if_neg hproperties] at h
        exact h _ (List.mem_singleton_self _)
    | arr items => simp only [mapItems_congr h]
    | _ => rfl

theorem inlineMembers_congr {members : List (String × Json)}
    (h : ∀ child ∈ memberChildren members, change child = change' child) :
    inlineMembers change members = inlineMembers change' members := by
  induction members with
  | nil => rfl
  | cons member rest ih =>
    obtain ⟨keyword, value⟩ := member
    rw [memberChildren] at h
    rw [inlineMembers, inlineMembers]
    split
    · rename_i hdropped
      rw [if_pos hdropped] at h
      exact ih h
    · rename_i hkept
      rw [if_neg hkept, List.forall_mem_append] at h
      rw [inlineValue_congr h.1, ih h.2]

/-- **Inlining is a walk.** -/
theorem isWalk_inlineWithin :
    IsWalk inlineChildren
      (fun library depth (_ : Unit) document node active =>
        library.inlineWithin depth document node active)
      inlineResolved where
  zero _ _ _ _ _ := rfl
  succ _ _ _ _ _ _ := rfl
  visits change b resolved := by
    rw [inlineResolved.eq_def, inlineChildren.eq_def]
    cases resolved.schema with
    | obj members =>
      have hmembers : VisitsBy (change ()) _ _ := visits_inlineMembers members
      exact hmembers.map Json.obj
    | _ => exact Visits.pure _
  congr b resolved h := by
    rw [inlineChildren.eq_def] at h
    rw [inlineResolved.eq_def, inlineResolved.eq_def]
    cases hschema : resolved.schema with
    | obj members =>
      rw [hschema] at h
      simp only [inlineMembers_congr (h ())]
    | _ => rfl

theorem within_of_mem_valueChildren {keyword : String} {value child : Json}
    (h : child ∈ valueChildren keyword value) : child.Within value := by
  rw [valueChildren.eq_def] at h
  split at h
  · cases h
  · cases value with
    | obj members =>
      simp only at h
      split at h
      · obtain ⟨member, hmember, rfl⟩ := List.mem_map.1 h
        exact (Json.within_of_mem_members hmember).1
      · rw [List.mem_singleton.1 h]
        exact Json.Within.refl _
    | arr items => exact (Json.within_of_mem_items (List.mem_filter.1 h).1).1
    | _ => cases h

theorem exists_mem_of_mem_memberChildren {members : List (String × Json)} {child : Json}
    (h : child ∈ memberChildren members) :
    ∃ member ∈ members, child ∈ valueChildren member.1 member.2 := by
  induction members with
  | nil => cases h
  | cons member rest ih =>
    obtain ⟨keyword, value⟩ := member
    rw [memberChildren] at h
    split at h
    · obtain ⟨member, hmember, hchild⟩ := ih h
      exact ⟨member, List.mem_cons_of_mem _ hmember, hchild⟩
    · rcases List.mem_append.1 h with h | h
      · exact ⟨_, List.mem_cons_self, h⟩
      · obtain ⟨member, hmember, hchild⟩ := ih h
        exact ⟨member, List.mem_cons_of_mem _ hmember, hchild⟩

theorem shrinks_inlineChildren : Shrinks inlineChildren := by
  intro schema child hchild
  cases schema with
  | obj members =>
    obtain ⟨member, hmember, hchild⟩ := exists_mem_of_mem_memberChildren hchild
    obtain ⟨hwithin, hlt⟩ := Json.within_of_mem_members hmember
    have hbelow := within_of_mem_valueChildren hchild
    exact ⟨hbelow.trans hwithin, hbelow.size.trans_lt hlt⟩
  | _ => cases hchild

end Inline

/-! ## Typing -/

/-- The nodes that typing goes to. -/
def typeChildren (schema : Json) : List Json :=
  match schemaKind? schema with
  | some "array" => [itemSchema schema]
  | some "object" => ((properties? schema).getD []).map Prod.snd
  | _ => []

/-- The tree of a resolved node, where `build` makes the trees of the nodes below. A node is built
for its name and its path. -/
def buildResolved (build : String × String → Json → Except SchemaError TypeTree)
    (field : String × String) (resolved : Resolved) : Except SchemaError TypeTree :=
  match schemaKind? resolved.schema with
  | some "array" => do
    let element ← build field (itemSchema resolved.schema)
    arrayOf element resolved.schema field.2
  | some "object" => do
    let node ← buildObject (fun name schema path => build (name, path) schema) field.1
      resolved.schema field.2
    return describe node resolved
  | some kind =>
    match ScalarType.ofName? kind with
    | some type => return describe (.leaf { name := field.1 } type) resolved
    | none => throw (.unknownKind field.2 kind)
  | none => throw (.unknownKind field.2 "untyped")

section Typing

variable {build build' : String × String → Json → Except SchemaError TypeTree}

theorem visits_buildMembers (path : String) (members : List (String × Json)) :
    Visits build (members.map Prod.snd)
      (buildMembers (fun name schema path => build (name, path) schema) path members) := by
  induction members with
  | nil => exact Visits.pure []
  | cons member rest ih =>
    obtain ⟨name, schema⟩ := member
    rw [buildMembers]
    exact (Visits.call _ schema).bind fun member => ih.map fun rest => member :: rest

theorem visits_buildObject (name : String) (schema : Json) (path : String) :
    Visits build (((properties? schema).getD []).map Prod.snd)
      (buildObject (fun name schema path => build (name, path) schema) name schema path) := by
  rw [buildObject]
  cases properties? schema with
  | none => exact Visits.throw fun _ h => by cases h
  | some properties => exact (visits_buildMembers path properties).map _

theorem buildMembers_congr {path : String} {members : List (String × Json)}
    (h : ∀ field, ∀ child ∈ members.map Prod.snd, build field child = build' field child) :
    buildMembers (fun name schema path => build (name, path) schema) path members =
      buildMembers (fun name schema path => build' (name, path) schema) path members := by
  induction members with
  | nil => rfl
  | cons member rest ih =>
    rw [buildMembers, buildMembers, h _ member.2 List.mem_cons_self,
      ih fun field child hchild => h field child (List.mem_cons_of_mem _ hchild)]

theorem buildObject_congr {name : String} {schema : Json} {path : String}
    (h : ∀ field, ∀ child ∈ ((properties? schema).getD []).map Prod.snd,
      build field child = build' field child) :
    buildObject (fun name schema path => build (name, path) schema) name schema path =
      buildObject (fun name schema path => build' (name, path) schema) name schema path := by
  rw [buildObject, buildObject]
  cases hproperties : properties? schema with
  | none => rfl
  | some properties =>
    rw [hproperties, Option.getD_some] at h
    simp only [buildMembers_congr h]

theorem arrayOf_ne_circular (element : TypeTree) (schema : Json) (path : String)
    (chain : List String) :
    (arrayOf element schema path : Except SchemaError TypeTree) ≠
      .error (.circularReference chain) := by
  rw [arrayOf]
  split <;> exact fun h => by cases h

/-- **Typing is a walk.** -/
theorem isWalk_buildWithin :
    IsWalk typeChildren
      (fun library depth (field : String × String) document schema active =>
        library.buildWithin depth field.1 document schema field.2 active)
      buildResolved where
  zero _ _ _ _ _ := rfl
  succ _ _ _ _ _ _ := rfl
  visits build field resolved := by
    rw [buildResolved.eq_def, typeChildren.eq_def]
    split
    · rename_i hkind
      simp only [hkind]
      exact (Visits.call field _).finish fun element chain =>
        arrayOf_ne_circular element resolved.schema field.2 chain
    · rename_i hkind
      simp only [hkind]
      exact (visits_buildObject field.1 resolved.schema field.2).map _
    · split
      · contradiction
      · contradiction
      · split
        · exact Visits.pure _
        · exact Visits.throw fun _ h => by cases h
      · exact Visits.throw fun _ h => by cases h
  congr field resolved h := by
    rw [typeChildren.eq_def] at h
    rw [buildResolved.eq_def, buildResolved.eq_def]
    split at h
    · rename_i hkind
      simp only [hkind]
      rw [h field _ (List.mem_singleton_self _)]
    · rename_i hkind
      simp only [hkind]
      rw [buildObject_congr h]
    · split
      · contradiction
      · contradiction
      · rfl
      · rfl

/-- What holds of the items and of the properties of a schema, and where anything is admitted, holds
of the nodes that typing goes to. -/
theorem forall_mem_typeChildren {P : Json → Prop} {schema : Json} (hany : P (.bool true))
    (hitems : ∀ items, schema.get? "items" = some items → P items)
    (hproperties : ∀ properties, schema.get? "properties" = some (.obj properties) →
      ∀ property ∈ properties, P property.2) : ∀ child ∈ typeChildren schema, P child := by
  intro child hchild
  rw [typeChildren] at hchild
  split at hchild
  · rw [List.mem_singleton.1 hchild, itemSchema]
    cases hfound : schema.get? "items" with
    | none => exact hany
    | some items => exact hitems items hfound
  · cases hfound : properties? schema with
    | none =>
      rw [hfound] at hchild
      cases hchild
    | some properties =>
      rw [hfound] at hchild
      obtain ⟨property, hproperty, rfl⟩ := List.mem_map.1 hchild
      exact hproperties properties (get?_of_properties? hfound) property hproperty
  · cases hchild

theorem shrinks_typeChildren : Shrinks typeChildren := by
  intro schema child hchild
  rw [typeChildren.eq_def] at hchild
  split at hchild
  · rename_i hkind
    rw [List.mem_singleton.1 hchild, itemSchema]
    cases hitems : schema.get? "items" with
    | some items =>
      obtain ⟨members, rfl, hmember⟩ := Json.exists_mem_of_get? hitems
      exact Json.within_of_mem_members hmember
    | none =>
      -- what any item may be has no references, and an array at least a type
      obtain ⟨value, hvalue⟩ : ∃ value, schema.get? "type" = some value := by
        rw [← Option.ne_none_iff_exists']
        intro htype
        rw [schemaKind?, htype, hitems] at hkind
        simp only [Option.isSome_none, Bool.false_eq_true, if_false] at hkind
        split at hkind
        · exact absurd hkind (by decide)
        · cases hkind
      obtain ⟨members, rfl, hmember⟩ := Json.exists_mem_of_get? hvalue
      have hlt : value.size < (Json.obj members).size := (Json.within_of_mem_members hmember).2
      have hpos := value.size_pos
      have hone : (Json.bool true).size = 1 := rfl
      rw [Option.getD_none]
      refine ⟨⟨?_, by omega⟩, by omega⟩
      rw [Json.references.eq_def]
      exact List.nil_subset _
  · cases hproperties : properties? schema with
    | none =>
      rw [hproperties] at hchild
      cases hchild
    | some properties =>
      rw [hproperties] at hchild
      obtain ⟨member, hmember, rfl⟩ := List.mem_map.1 hchild
      obtain ⟨members, rfl, hmembers⟩ := Json.exists_mem_of_get? (get?_of_properties? hproperties)
      obtain ⟨hwithin, hlt⟩ := Json.within_of_mem_members hmember
      obtain ⟨hwithin', hlt'⟩ := Json.within_of_mem_members hmembers
      exact ⟨hwithin.trans hwithin', hlt.trans hlt'⟩
  · cases hchild

end Typing

end Library

end TableExport
