import TableExport.Proofs.Entries
import TableExport.Proofs.Schema.Resolving
import TableExport.Schema.Typing

/-!
# What inlining does to a schema

Inlining a node resolves it and then changes the values of its keywords (`inlineWithin_eq_ok`). The
result has no reference (`Inlines.get?_ref`), and it declares the kind that the resolved node
declares (`Inlines.schemaKind?_eq`), since the keywords that decide the kind stay, with the same
type. Its items and its properties are those of the resolved node, each inlined
(`Inlines.itemSchema`, `Inlines.properties?`).
-/

namespace TableExport

/-! ## Values that are no objects -/

theorem get?_of_obj?_eq_none {schema : Json} (h : schema.obj? = none) (keyword : String) :
    schema.get? keyword = none := by
  cases schema with
  | obj members => cases h
  | _ => rfl

theorem schemaKind?_of_obj?_eq_none {schema : Json} (h : schema.obj? = none) :
    schemaKind? schema = none := by
  simp [schemaKind?, get?_of_obj?_eq_none h]

/-- The properties of a schema stand under their keyword. -/
theorem get?_of_properties? {schema : Json} {properties : Entries Json}
    (h : properties? schema = some properties) :
    schema.get? "properties" = some (.obj properties) := by
  obtain ⟨hbind, -⟩ := Option.filter_eq_some_iff.1 h
  obtain ⟨value, hvalue, hobj⟩ := Option.bind_eq_some_iff.1 hbind
  cases value with
  | obj members =>
    cases hobj
    exact hvalue
  | _ => cases hobj

namespace Library

variable {library : Library (Except SchemaError)}

/-! ## Inlining a resolved node -/

/-- What inlining makes of a node without a reference, where `change` inlines the nodes below. -/
inductive Inlines (change : Json → Except SchemaError Json) : Json → Json → Prop
  | obj {members members' : List (String × Json)} :
    inlineMembers change members = .ok members' → Inlines change (.obj members) (.obj members')
  | other {schema : Json} : schema.obj? = none → Inlines change schema schema

/-- **Inlining resolves a node and inlines the nodes below it.** -/
theorem inlineWithin_eq_ok {depth : Nat} {document : String} {node inlined : Json}
    {active : List String}
    (h : library.inlineWithin (depth + 1) document node active = .ok inlined) :
    ∃ resolved, library.enter document node active = .ok resolved ∧
      Inlines (fun child =>
        library.inlineWithin depth resolved.document child (active ++ resolved.chain))
        resolved.schema inlined := by
  rw [inlineWithin] at h
  obtain ⟨resolved, henter, h⟩ := bind_eq_ok.1 h
  refine ⟨resolved, henter, ?_⟩
  generalize resolved.schema = schema at h
  cases schema with
  | obj members =>
    obtain ⟨members', hmembers, h⟩ := bind_eq_ok.1 h
    cases h
    exact Inlines.obj hmembers
  | _ =>
    cases h
    exact Inlines.other rfl

/-- What a node is inlined to is what it is resolved to, with the nodes below inlined. -/
theorem inline_eq_ok {document : String} {node inlined : Json}
    (h : library.inline document node = .ok inlined) :
    ∃ depth resolved, library.bound = depth + 1 ∧ library.resolve document node = .ok resolved ∧
      Inlines (fun child => library.inlineWithin depth resolved.document child resolved.chain)
        resolved.schema inlined := by
  rw [inline] at h
  cases hbound : library.bound with
  | zero =>
    rw [hbound] at h
    cases h
  | succ depth =>
    rw [hbound] at h
    obtain ⟨resolved, henter, hinlines⟩ := inlineWithin_eq_ok h
    exact ⟨depth, resolved, rfl, (enter_eq_ok.1 henter).1, hinlines⟩

variable {change : Json → Except SchemaError Json}

/-- A keyword keeps its place, with its value inlined. -/
theorem get?_inlineMembers {keyword : String} (hdefinitions : keyword ≠ "definitions")
    (hdefs : keyword ≠ "$defs") {members members' : List (String × Json)}
    (h : inlineMembers change members = .ok members') :
    Option.Rel (fun value value' => inlineValue change keyword value = .ok value')
      (Entries.get? members keyword) (Entries.get? members' keyword) := by
  induction members generalizing members' with
  | nil =>
    cases h
    exact Option.Rel.none
  | cons member rest ih =>
    obtain ⟨name, value⟩ := member
    rw [inlineMembers] at h
    by_cases hdropped : name = "definitions" ∨ name = "$defs"
    · rw [if_pos hdropped] at h
      have hne : name ≠ keyword := by
        rintro rfl
        exact hdropped.elim hdefinitions hdefs
      rw [Entries.get?_cons_of_ne hne]
      exact ih h
    · rw [if_neg hdropped] at h
      obtain ⟨value', hvalue, h⟩ := bind_eq_ok.1 h
      obtain ⟨rest', hrest, h⟩ := bind_eq_ok.1 h
      cases h
      by_cases hname : name = keyword
      · subst hname
        rw [Entries.get?_cons_self, Entries.get?_cons_self]
        exact Option.Rel.some hvalue
      · rw [Entries.get?_cons_of_ne hname, Entries.get?_cons_of_ne hname]
        exact ih hrest

theorem forall₂_mapMembers {members members' : List (String × Json)}
    (h : mapMembers change members = .ok members') :
    List.Forall₂ (fun member member' : String × Json =>
      member.1 = member'.1 ∧ change member.2 = .ok member'.2) members members' := by
  induction members generalizing members' with
  | nil =>
    cases h
    exact List.Forall₂.nil
  | cons member rest ih =>
    obtain ⟨name, value⟩ := member
    rw [mapMembers] at h
    obtain ⟨value', hvalue, h⟩ := bind_eq_ok.1 h
    obtain ⟨rest', hrest, h⟩ := bind_eq_ok.1 h
    cases h
    exact List.Forall₂.cons ⟨rfl, hvalue⟩ (ih hrest)

/-- Items that are objects are changed, and others stay. -/
theorem forall₂_mapItems {items items' : List Json} (h : mapItems change items = .ok items') :
    List.Forall₂ (fun item item' => item.obj?.isSome ∧ change item = .ok item' ∨
      item.obj? = none ∧ item' = item) items items' := by
  induction items generalizing items' with
  | nil =>
    cases h
    exact List.Forall₂.nil
  | cons item rest ih =>
    cases item with
    | obj members =>
      obtain ⟨item', hitem, h⟩ := bind_eq_ok.1 h
      obtain ⟨rest', hrest, h⟩ := bind_eq_ok.1 h
      cases h
      exact List.Forall₂.cons (Or.inl ⟨rfl, hitem⟩) (ih hrest)
    | _ =>
      obtain ⟨_, hitem, h⟩ := bind_eq_ok.1 h
      obtain ⟨rest', hrest, h⟩ := bind_eq_ok.1 h
      cases hitem
      cases h
      exact List.Forall₂.cons (Or.inr ⟨rfl, rfl⟩) (ih hrest)

/-- A member of an inlined object is a kept member with its value inlined. -/
theorem exists_of_mem_inlineMembers {members members' : List (String × Json)}
    (h : inlineMembers change members = .ok members') {keyword : String} {value' : Json}
    (hmember : (keyword, value') ∈ members') :
    ∃ value, (keyword, value) ∈ members ∧ ¬ (keyword = "definitions" ∨ keyword = "$defs") ∧
      inlineValue change keyword value = .ok value' := by
  induction members generalizing members' with
  | nil =>
    cases h
    cases hmember
  | cons member rest ih =>
    obtain ⟨name, value⟩ := member
    rw [inlineMembers] at h
    by_cases hdropped : name = "definitions" ∨ name = "$defs"
    · rw [if_pos hdropped] at h
      obtain ⟨found, hfound, hkept⟩ := ih h hmember
      exact ⟨found, List.mem_cons_of_mem _ hfound, hkept⟩
    · rw [if_neg hdropped] at h
      obtain ⟨changed, hchanged, h⟩ := bind_eq_ok.1 h
      obtain ⟨rest', hrest, h⟩ := bind_eq_ok.1 h
      cases h
      rcases List.mem_cons.1 hmember with heq | hmember
      · cases heq
        exact ⟨value, List.mem_cons_self, hdropped, hchanged⟩
      · obtain ⟨found, hfound, hkept⟩ := ih hrest hmember
        exact ⟨found, List.mem_cons_of_mem _ hfound, hkept⟩

/-- A property of an inlined schema is an inlined property. -/
theorem get?_of_forall₂ {change : Json → Except SchemaError Json}
    {properties properties' : Entries Json}
    (h : List.Forall₂ (fun member member' : String × Json =>
      member.1 = member'.1 ∧ change member.2 = .ok member'.2) properties properties')
    {name : String} {child' : Json} (hchild : properties'.get? name = some child') :
    ∃ child, properties.get? name = some child ∧ change child = .ok child' := by
  induction h with
  | nil => cases hchild
  | @cons member member' rest rest' hfirst _ ih =>
    obtain ⟨own, child⟩ := member
    obtain ⟨own', changed⟩ := member'
    obtain ⟨hname, hchange⟩ := hfirst
    obtain rfl : own = own' := hname
    by_cases hname : own = name
    · subst hname
      rw [Entries.get?_cons_self] at hchild ⊢
      cases hchild
      exact ⟨child, rfl, hchange⟩
    · rw [Entries.get?_cons_of_ne hname] at hchild ⊢
      exact ih hchild

namespace Inlines

variable {schema inlined : Json}

theorem get? (h : Inlines change schema inlined) (keyword : String)
    (hdefinitions : keyword ≠ "definitions") (hdefs : keyword ≠ "$defs") :
    Option.Rel (fun value value' => inlineValue change keyword value = .ok value')
      (schema.get? keyword) (inlined.get? keyword) := by
  cases h with
  | obj hmembers => exact get?_inlineMembers hdefinitions hdefs hmembers
  | other hschema =>
    rw [get?_of_obj?_eq_none hschema]
    exact Option.Rel.none

/-- The value of a keyword that holds data stays. -/
theorem get?_literal (h : Inlines change schema inlined) {keyword : String}
    (hliteral : keyword ∈ literalKeywords) : inlined.get? keyword = schema.get? keyword := by
  have hdefinitions : keyword ≠ "definitions" := by
    rintro rfl
    revert hliteral
    decide
  have hdefs : keyword ≠ "$defs" := by
    rintro rfl
    revert hliteral
    decide
  have hrel := h.get? keyword hdefinitions hdefs
  generalize schema.get? keyword = value?, inlined.get? keyword = inlined? at hrel
  cases hrel with
  | none => rfl
  | some hvalue =>
    rw [inlineValue.eq_def, if_pos (by simpa using hliteral)] at hvalue
    cases hvalue
    rfl

theorem isSome_get? (h : Inlines change schema inlined) (keyword : String)
    (hdefinitions : keyword ≠ "definitions") (hdefs : keyword ≠ "$defs") :
    (inlined.get? keyword).isSome = (schema.get? keyword).isSome := by
  have hrel := h.get? keyword hdefinitions hdefs
  generalize schema.get? keyword = value?, inlined.get? keyword = inlined? at hrel
  cases hrel <;> rfl

/-- No reference appears. -/
theorem get?_ref (h : Inlines change schema inlined) (href : schema.get? "$ref" = none) :
    inlined.get? "$ref" = none := by
  have hsome := h.isSome_get? "$ref" (by decide) (by decide)
  rw [href] at hsome
  simpa using hsome

/-- **An inlined schema declares the same kind.** -/
theorem schemaKind?_eq (h : Inlines change schema inlined) :
    schemaKind? inlined = schemaKind? schema := by
  rw [schemaKind?, schemaKind?, h.get?_literal (by decide),
    h.isSome_get? "properties" (by decide) (by decide),
    h.isSome_get? "items" (by decide) (by decide)]

/-- The items of an inlined schema are the inlined items, or neither is an object. -/
theorem itemSchema (h : Inlines change schema inlined) :
    change (TableExport.itemSchema schema) = .ok (TableExport.itemSchema inlined) ∨
      (TableExport.itemSchema schema).obj? = none ∧
        (TableExport.itemSchema inlined).obj? = none := by
  have hrel := h.get? "items" (by decide) (by decide)
  rw [TableExport.itemSchema, TableExport.itemSchema]
  generalize schema.get? "items" = value?, inlined.get? "items" = inlined? at hrel
  cases hrel with
  | none => exact Or.inr ⟨rfl, rfl⟩
  | @some value value' hvalue =>
    rw [inlineValue.eq_def, if_neg (by decide)] at hvalue
    cases value with
    | obj members =>
      simp only [if_neg (show ¬ ("items" = "properties" ∨ "items" = "patternProperties") by decide)]
        at hvalue
      exact Or.inl hvalue
    | arr items =>
      obtain ⟨items', -, hitems⟩ := bind_eq_ok.1 hvalue
      cases hitems
      exact Or.inr ⟨rfl, rfl⟩
    | _ =>
      cases hvalue
      exact Or.inr ⟨rfl, rfl⟩

/-- The properties of an inlined schema are the inlined properties under the same names. -/
theorem properties? (h : Inlines change schema inlined) :
    Option.Rel (List.Forall₂ fun member member' : String × Json =>
        member.1 = member'.1 ∧ change member.2 = .ok member'.2)
      (TableExport.properties? schema) (TableExport.properties? inlined) := by
  have hrel := h.get? "properties" (by decide) (by decide)
  rw [TableExport.properties?, TableExport.properties?]
  generalize schema.get? "properties" = value?, inlined.get? "properties" = inlined? at hrel
  cases hrel with
  | none => exact Option.Rel.none
  | @some value value' hvalue =>
    rw [inlineValue.eq_def, if_neg (by decide)] at hvalue
    cases value with
    | obj members =>
      simp only [true_or, if_true] at hvalue
      obtain ⟨members', hmembers, h⟩ := bind_eq_ok.1 hvalue
      cases h
      have hall := forall₂_mapMembers hmembers
      simp only [Option.bind_some, Json.obj?]
      cases hall with
      | nil => exact Option.Rel.none
      | cons hfirst hrest => exact Option.Rel.some (List.Forall₂.cons hfirst hrest)
    | arr items =>
      obtain ⟨items', -, hitems⟩ := bind_eq_ok.1 hvalue
      cases hitems
      exact Option.Rel.none
    | _ =>
      cases hvalue
      exact Option.Rel.none

end Inlines

end Library

end TableExport
