import TableExport.Proofs.Schema.Distinct
import TableExport.Proofs.Validation.Paths

/-!
# The keywords that say types

`type`, `properties` and `items` say which types a value and its parts have. `WellTyped` is what
they mean on their own, in a schema and in the schemas that `properties` and `items` lead to. A
value that is well typed can break other keywords only: no violation is found at a `type` that these
two lead to, and no schema that they lead to lets nothing through (`WellTyped.not_typingPath`).
-/

namespace TableExport

/-- A value has a type, or one of several. What is neither a type nor a list says nothing. -/
def HasType (types value : Json) : Prop :=
  match types with
  | .str type => Keyword.hasType type value = true
  | .arr names => ∃ type ∈ names.filterMap Json.str?, Keyword.hasType type value = true
  | _ => True

/-- A value has the types that a schema says it has, and so have its properties and its items. An
array has one schema for all of its items. -/
inductive WellTyped : Json → Json → Prop
  | intro {schema value : Json} : schema ≠ .bool false →
    (∀ types, schema.get? "type" = some types → HasType types value) →
    (∀ properties members name child part, schema.get? "properties" = some (.obj properties) →
      Entries.get? properties name = some child → value = .obj members → (name, part) ∈ members →
      WellTyped child part) →
    (∀ each items, schema.get? "items" = some each → value = .arr items → each.arr? = none) →
    (∀ each items, schema.get? "items" = some each → value = .arr items → ∀ item ∈ items,
      WellTyped each item) →
    WellTyped schema value

namespace Keyword

theorem checkType_eq_nil {types value : Json} (h : HasType types value) (place : Place) :
    checkType types place value = [] := by
  have hholds : ∀ (condition : Bool) (breach : Breach), condition = true →
      Check.require condition breach place value = [] := by
    rintro _ breach rfl
    rfl
  cases types with
  | str type => exact hholds _ _ h
  | arr names =>
    obtain ⟨type, htype, hvalue⟩ := h
    rw [checkType.eq_def]
    simp only
    split
    · rename_i only honly
      rw [honly, List.mem_singleton] at htype
      exact hholds _ _ (htype ▸ hvalue)
    · exact hholds _ _ (List.any_eq_true.2 ⟨type, htype, hvalue⟩)
  | _ => rfl

/-! ## Single keywords -/

variable {keywords : List Keyword} {keyword : Keyword} {place : Place} {value : Json}

theorem check_type (h : keyword.name = "type") :
    check keywords keyword place value =
      checkType keyword.value (place.inSchema "type") value := by
  rw [check.eq_def]
  simp only [h]

theorem check_properties (h : keyword.name = "properties") :
    check keywords keyword place value = if restrictsOthers keywords then [] else
      checkProperties keyword.checks.named (place.inSchema "properties") value := by
  rw [check.eq_def]
  simp only [h]

/-- What is wrong with the properties of a value is wrong with one of them. -/
theorem mem_checkProperties {named : List (String × Check)} {violation : Violation}
    (h : violation ∈ checkProperties named place value) :
    ∃ members name check part, value = .obj members ∧ (name, check) ∈ named ∧
      (name, part) ∈ members ∧
      violation ∈ check (place.inSchema name |>.inValue name) part := by
  rw [checkProperties.eq_def] at h
  split at h
  · rename_i members
    obtain ⟨⟨name, check⟩, hcheck, h⟩ := List.mem_flatMap.1 h
    simp only at h
    split at h
    · rename_i part hpart
      exact ⟨members, name, check, part, rfl, hcheck, Entries.mem_of_get? hpart, h⟩
    · cases h
  · cases h

/-- What is wrong with the items of a value under one schema is wrong with one of them. -/
theorem mem_checkItems {schema : Json} {checks : Checks} {violation : Violation}
    (hsingle : ∀ items, value = .arr items → schema.arr? = none)
    (h : violation ∈ checkItems schema checks place value) :
    ∃ items item i, value = .arr items ∧ item ∈ items ∧
      violation ∈ checks.whole (place.inValue i) item := by
  rw [checkItems.eq_def] at h
  split at h
  · cases hsingle _ rfl
  · rename_i items _
    obtain ⟨⟨i, item⟩, hmem, h⟩ := List.mem_flatMap.1 h
    obtain ⟨⟨source, j⟩, hsource, heq⟩ := List.mem_map.1 hmem
    cases heq
    exact ⟨items, item, _, rfl, List.fst_mem_of_mem_zipIdx hsource, h⟩
  · cases h

theorem check_items (h : keyword.name = "items") :
    check keywords keyword place value =
      checkItems keyword.value keyword.checks (place.inSchema "items") value := by
  rw [check.eq_def]
  simp only [h]

theorem check_additionalProperties (h : keyword.name = "additionalProperties") :
    check keywords keyword place value =
      checkAdditional keywords keyword.value keyword.checks.whole place value := by
  rw [check.eq_def]
  simp only [h]

end Keyword

namespace Checks

theorem mem_ofMembers {members : List (String × Json)} {keyword : Keyword}
    (h : keyword ∈ ofMembers members) :
    (keyword.name, keyword.value) ∈ members ∧ keyword.checks = ofJson keyword.value := by
  induction members with
  | nil => cases h
  | cons member rest ih =>
    obtain ⟨name, value⟩ := member
    rw [ofMembers] at h
    rcases List.mem_cons.1 h with rfl | h
    · exact ⟨List.mem_cons_self, rfl⟩
    · exact ⟨List.mem_cons_of_mem _ (ih h).1, (ih h).2⟩

/-- A check under a name is that of a member. -/
theorem exists_member_of_mem_named {value : Json} {name : String} {check : Check}
    (h : (name, check) ∈ (ofJson value).named) :
    ∃ members child, value = .obj members ∧ (name, child) ∈ members ∧
      check = (ofJson child).whole := by
  rw [ofJson.eq_def] at h
  split at h
  · rename_i members
    obtain ⟨keyword, hkeyword, heq⟩ := List.mem_map.1 h
    obtain ⟨hmem, hchecks⟩ := mem_ofMembers hkeyword
    cases heq
    exact ⟨members, keyword.value, rfl, hmem, by rw [hchecks]⟩
  · cases h
  · cases h
  · cases h

/-- The checks of the properties of a schema are those of the schemas under `properties`. -/
theorem exists_property_of_lookup {members : List (String × Json)} {name : String} {check : Check}
    (h : (Keyword.namedChecks (ofMembers members)).lookup name = some check) :
    ∃ properties child, ("properties", Json.obj properties) ∈ members ∧
      (name, child) ∈ properties ∧ check = (ofJson child).whole := by
  obtain ⟨before, after, hnamed, -⟩ := List.lookup_eq_some_iff.1 h
  have hmem : (name, check) ∈ Keyword.namedChecks (ofMembers members) := by simp [hnamed]
  rw [Keyword.namedChecks] at hmem
  cases hfind : Keyword.find? (ofMembers members) "properties" with
  | none =>
    rw [hfind] at hmem
    cases hmem
  | some keyword =>
    rw [hfind] at hmem
    obtain ⟨hkeyword, hchecks⟩ := mem_ofMembers (List.mem_of_find?_eq_some hfind)
    have hname : keyword.name = "properties" := by simpa using List.find?_some hfind
    rw [Option.map_some, Option.getD_some, hchecks] at hmem
    obtain ⟨properties, child, hvalue, hchild, hcheck⟩ := exists_member_of_mem_named hmem
    rw [hname, hvalue] at hkeyword
    exact ⟨properties, child, hkeyword, hchild, hcheck⟩

end Checks

/-! ## Violations of other keywords -/

/-- A path that leads through `properties` and `items` only, to a schema or to its `type`. -/
inductive TypingPath : List String → Prop
  | nil : TypingPath []
  | type : TypingPath ["type"]
  | property {name : String} {rest : List String} :
    TypingPath rest → TypingPath ("properties" :: name :: rest)
  | item {rest : List String} : TypingPath rest → TypingPath ("items" :: rest)

theorem TypingPath.of_property {name : String} {path : List String}
    (h : TypingPath ("properties" :: name :: path)) : TypingPath path := by
  generalize hwhole : "properties" :: name :: path = whole at h
  cases h with
  | nil => cases hwhole
  | type => simp at hwhole
  | property hrest =>
    rw [List.cons.injEq, List.cons.injEq] at hwhole
    rw [hwhole.2.2]
    exact hrest
  | item => simp at hwhole

namespace Keyword

theorem StartsWith.eq_type {keyword : String} (h : StartsWith keyword "type") :
    keyword = "type" := by
  rcases h with rfl | ⟨-, h⟩ | ⟨-, h⟩
  · rfl
  · exact absurd h (by decide)
  · exact absurd h (by decide)

theorem StartsWith.eq_items {keyword : String} (h : StartsWith keyword "items") :
    keyword = "items" := by
  rcases h with rfl | ⟨-, h⟩ | ⟨-, h⟩
  · rfl
  · exact absurd h (by decide)
  · exact absurd h (by decide)

theorem StartsWith.eq_properties {keyword : String} (h : StartsWith keyword "properties") :
    keyword = "properties" ∨ keyword = "additionalProperties" := by
  rcases h with rfl | ⟨rfl, -⟩ | ⟨-, h⟩
  · exact Or.inl rfl
  · exact Or.inr rfl
  · exact absurd h (by decide)

end Keyword

/-- The first step of a path, when another step is known to be its first. -/
theorem exists_cons_of_prefix {place path rest : List String} {first : String}
    (hpath : path = place ++ rest) (h : place ++ [first] <+: path) :
    ∃ others, rest = first :: others := by
  obtain ⟨others, hothers⟩ := h
  have heq : place ++ rest = place ++ first :: others := by
    rw [← hpath, ← hothers, List.append_assoc]
    rfl
  exact ⟨others, List.append_cancel_left heq⟩

/-- What is wrong with a property lies below its schema, and the path goes on from there. -/
theorem TypingPath.below_property {path : List String} (h : TypingPath path) {place inner : Place}
    {name : String} {child part : Json} {violation : Violation}
    (hpath : violation.schemaPath = place.schema.reverse ++ path)
    (hinner : inner.schema = name :: "properties" :: place.schema)
    (hv : violation ∈ (Checks.ofJson child).whole inner part) :
    ∃ rest, violation.schemaPath = inner.schema.reverse ++ rest ∧ TypingPath rest := by
  obtain ⟨rest, hrest⟩ := (Checks.stay_ofJson child).whole inner part violation hv
  have heq : path = "properties" :: name :: rest := by
    refine List.append_cancel_left (show place.schema.reverse ++ _ = _ ++ _ from ?_)
    rw [← hpath, ← hrest, hinner]
    simp
  rw [heq] at h
  exact ⟨rest, hrest.symm, h.of_property⟩

/-- A violation that is found with a property, under its schema. -/
inductive BreaksProperty (members : List (String × Json)) (value : Json) (place : Place)
    (violation : Violation) : Prop
  | intro {properties parts : List (String × Json)} {name : String} {child part : Json}
    {inner : Place} : ("properties", Json.obj properties) ∈ members → (name, child) ∈ properties →
    value = .obj parts → (name, part) ∈ parts →
    inner.schema = name :: "properties" :: place.schema →
    violation ∈ (Checks.ofJson child).whole inner part →
    BreaksProperty members value place violation

/-- What is found below `properties` is found with a property, also by `additionalProperties`. -/
theorem breaksProperty_of_check {members : List (String × Json)} {keyword : Keyword}
    (hkeyword : keyword ∈ Checks.ofMembers members)
    (hname : keyword.name = "properties" ∨ keyword.name = "additionalProperties") {value : Json}
    {place : Place} {violation : Violation}
    (hv : violation ∈ Keyword.check (Checks.ofMembers members) keyword place value)
    {rest : List String}
    (hpath : violation.schemaPath = place.schema.reverse ++ "properties" :: rest) :
    BreaksProperty members value place violation := by
  obtain ⟨hmem, hchecks⟩ := Checks.mem_ofMembers hkeyword
  rcases hname with hname | hname
  · rw [Keyword.check_properties hname, hchecks] at hv
    split at hv
    · cases hv
    · obtain ⟨parts, name, check, part, hvalue, hcheck, hpart, hv⟩ :=
        Keyword.mem_checkProperties hv
      obtain ⟨properties, child, hobj, hchild, rfl⟩ := Checks.exists_member_of_mem_named hcheck
      rw [hname, hobj] at hmem
      exact ⟨hmem, hchild, hvalue, hpart, rfl, hv⟩
  · have hstay := Checks.stay_ofMembers members
    rw [Keyword.check_additionalProperties hname] at hv
    cases Keyword.found_of_checkAdditional hstay (hstay keyword hkeyword).whole hv with
    | property hvalue hpart hlookup hv =>
      obtain ⟨properties, child, hmem, hchild, rfl⟩ := Checks.exists_property_of_lookup hlookup
      exact ⟨hmem, hchild, hvalue, hpart, rfl, hv⟩
    | other hfirst hbelow =>
      obtain ⟨others, heq⟩ := exists_cons_of_prefix hpath hbelow
      cases heq
      exact absurd hfirst (by decide)

/-- **A value that is well typed breaks other keywords only.** -/
theorem WellTyped.not_typingPath {schema value : Json} (h : WellTyped schema value)
    (hdistinct : schema.Distinct) {place : Place} {violation : Violation}
    (hv : violation ∈ (Checks.ofJson schema).whole place value) {rest : List String}
    (hpath : violation.schemaPath = place.schema.reverse ++ rest) : ¬ TypingPath rest := by
  induction h generalizing place rest with
  | @intro schema value hfalse htype _ hsingle _ ihproperties ihitems =>
    intro htyping
    cases schema with
    | obj members =>
      obtain ⟨hnodup, hmembers⟩ := hdistinct.of_obj
      rw [Checks.ofJson] at hv
      obtain ⟨keyword, hkeyword, hv⟩ := List.mem_flatMap.1 hv
      obtain ⟨hmem, hchecks⟩ := Checks.mem_ofMembers hkeyword
      have hstay := Checks.stay_ofMembers members
      obtain ⟨first, hstarts, hbelow⟩ := Keyword.starts_check hstay (hstay keyword hkeyword) hv
      obtain ⟨others, rfl⟩ := exists_cons_of_prefix hpath hbelow
      cases htyping with
      | type =>
        have hname := hstarts.eq_type
        rw [hname] at hmem
        have hholds := htype keyword.value (Entries.get?_of_mem hnodup hmem)
        rw [Keyword.check_type hname, Keyword.checkType_eq_nil hholds] at hv
        cases hv
      | item hrest =>
        have hname := hstarts.eq_items
        rw [hname] at hmem
        have hget := Entries.get?_of_mem hnodup hmem
        rw [Keyword.check_items hname, hchecks] at hv
        obtain ⟨items, item, i, rfl, hitem, hv⟩ :=
          Keyword.mem_checkItems (fun items => hsingle keyword.value items hget) hv
        refine ihitems keyword.value items hget rfl item hitem (hmembers _ hmem) hv ?_ hrest
        rw [hpath]
        simp [Place.inSchema, Place.inValue]
      | property hrest =>
        obtain ⟨hproperties, hchild, hvalue, hpart, hinner, hv⟩ :=
          breaksProperty_of_check hkeyword hstarts.eq_properties hv hpath
        obtain ⟨hnodup', hchildren⟩ := (hmembers _ hproperties).of_obj
        obtain ⟨others, hothers, hbelow⟩ := hrest.property.below_property hpath hinner hv
        exact ihproperties _ _ _ _ _ (Entries.get?_of_mem hnodup hproperties)
          (Entries.get?_of_mem hnodup' hchild) hvalue hpart (hchildren _ hchild) hv hothers hbelow
    | bool value =>
      cases value with
      | true => cases hv
      | false => exact hfalse rfl
    | _ => cases hv

end TableExport
