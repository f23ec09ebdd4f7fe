import TableExport.Proofs.Schema.Meaning

/-!
# Inlining keeps the meaning of a schema

A schema and what it is inlined to accept the same values, and no schema in the result has a
reference (`Library.accepts_inline`), where the references that are followed lead to objects or
truth values (`Library.LeadsToSchemas`).

What inlining does to the value of a keyword depends on the keyword: data stays, and named schemas,
a list of schemas or a single schema are inlined one by one. In each case what is accepted below
stays the same when it does for the schemas that are inlined (`Library.Keeps`), and so the inlined
schema makes the same demands (`Library.Inlines.demands_eq`).
-/

namespace TableExport

/-- A schema is an object or a truth value. -/
def Json.IsSchema (node : Json) : Prop := node.obj?.isSome ∨ node.bool?.isSome

theorem Json.IsSchema.arr?_eq_none {node : Json} (h : node.IsSchema) : node.arr? = none := by
  cases node with
  | arr items => simp [IsSchema, obj?, bool?] at h
  | _ => rfl

/-- A node in the position of a schema below another: the node itself, or a node below one of its
keywords, of which those that hold data have none. -/
inductive Json.SchemaIn : Json → Json → Prop
  | self (schema : Json) : SchemaIn schema schema
  | under {members : List (String × Json)} {keyword : String} {value child part : Json} :
    (keyword, value) ∈ members → child ∈ Library.valueChildren keyword value →
    SchemaIn child part → SchemaIn (.obj members) part

namespace Library

/-! ## Schemas below a keyword -/

section Keeps

variable {accepts accepts' : Json → Json → Prop} {change : Json → Except SchemaError Json}

/-- What is changed of some nodes accepts the same as before, and objects are changed to schemas.
Nodes that are no objects refuse everything or nothing. -/
structure Keeps (accepts accepts' : Json → Json → Prop) (change : Json → Except SchemaError Json)
    (nodes : List Json) : Prop where
  changed : ∀ node ∈ nodes, ∀ node', change node = .ok node' → accepts node = accepts' node'
  isSchema : ∀ node ∈ nodes, node.obj?.isSome → ∀ node', change node = .ok node' → node'.IsSchema
  kept : ∀ node node' : Json, node.obj? = none → node'.obj? = none →
    (node = .bool false ↔ node' = .bool false) → accepts node = accepts' node'

theorem Keeps.mono {nodes nodes' : List Json} (h : Keeps accepts accepts' change nodes)
    (hsub : nodes' ⊆ nodes) : Keeps accepts accepts' change nodes' :=
  ⟨fun node hnode => h.changed node (hsub hnode), fun node hnode => h.isSchema node (hsub hnode),
    h.kept⟩

/-- A changed list accepts at each position what it accepted before. -/
theorem Keeps.items {items items' : List Json}
    (hkeeps : Keeps accepts accepts' change (items.filter fun item => item.obj?.isSome))
    (h : mapItems change items = .ok items') : items.map accepts = items'.map accepts' := by
  have hall := forall₂_mapItems h
  clear h
  induction hall with
  | nil => rfl
  | @cons item item' rest rest' hitem _ ih =>
    have hsub : rest.filter (fun item => item.obj?.isSome) ⊆
        (item :: rest).filter fun item => item.obj?.isSome := by
      rw [List.filter_cons]
      split
      · exact List.subset_cons_self _ _
      · exact List.Subset.refl _
    rw [List.map_cons, List.map_cons, ih (hkeeps.mono hsub)]
    refine congrArg (· :: _) ?_
    rcases hitem with ⟨hobj, hchange⟩ | ⟨hobj, rfl⟩
    · exact hkeeps.changed item (List.mem_filter.2 ⟨List.mem_cons_self, hobj⟩) item' hchange
    · exact hkeeps.kept _ _ hobj hobj Iff.rfl

/-- Changed named schemas accept under each name what they accepted before. -/
theorem Keeps.members {members members' : List (String × Json)}
    (hkeeps : Keeps accepts accepts' change (members.map Prod.snd))
    (h : mapMembers change members = .ok members') :
    members.map (fun member => (member.1, accepts member.2)) =
      members'.map fun member => (member.1, accepts' member.2) := by
  have hall := forall₂_mapMembers h
  clear h
  induction hall with
  | nil => rfl
  | @cons member member' rest rest' hmember _ ih =>
    rw [List.map_cons, List.map_cons, ih (hkeeps.mono (List.subset_cons_self _ _)), hmember.1,
      hkeeps.changed member.2 List.mem_cons_self member'.2 hmember.2]

/-- A keyword that holds one schema or a list of schemas. -/
structure HoldsSchemas (keyword : String) : Prop where
  literal : ¬ literalKeywords.contains keyword = true
  named : ¬ (keyword = "properties" ∨ keyword = "patternProperties")
  dropped : ¬ (keyword = "definitions" ∨ keyword = "$defs")

/-- Each element of a list is related to one of the other list. -/
theorem exists_of_mem_forall₂ {α β : Type} {R : α → β → Prop} {elements : List α}
    {others : List β} (h : List.Forall₂ R elements others) {b : β} (hb : b ∈ others) :
    ∃ a ∈ elements, R a b := by
  induction h with
  | nil => cases hb
  | cons hfirst _ ih =>
    rcases List.mem_cons.1 hb with rfl | hb
    · exact ⟨_, List.mem_cons_self, hfirst⟩
    · obtain ⟨a, ha, hab⟩ := ih hb
      exact ⟨a, List.mem_cons_of_mem _ ha, hab⟩

variable {keyword : String} {value value' : Json}

/-- **A keyword with one schema or a list of schemas keeps what these accept.** -/
theorem Keeps.inlineValue (hkeeps : Keeps accepts accepts' change (valueChildren keyword value))
    (hkeyword : HoldsSchemas keyword) (h : inlineValue change keyword value = .ok value') :
    accepts value = accepts' value' ∧ value.arr?.isNone = value'.arr?.isNone ∧
      value.arr?.map (·.map accepts) = value'.arr?.map (·.map accepts') := by
  rw [valueChildren.eq_def, if_neg hkeyword.literal] at hkeeps
  rw [Library.inlineValue.eq_def, if_neg hkeyword.literal] at h
  cases value with
  | obj members =>
    simp only [if_neg hkeyword.named] at hkeeps h
    have harr := (hkeeps.isSchema _ (List.mem_singleton_self _) rfl value' h).arr?_eq_none
    refine ⟨hkeeps.changed _ (List.mem_singleton_self _) value' h, ?_, ?_⟩
    · rw [harr]
      rfl
    · rw [harr]
      rfl
  | arr items =>
    obtain ⟨items', hitems, h⟩ := bind_eq_ok.1 h
    cases h
    exact ⟨hkeeps.kept _ _ rfl rfl (by simp), rfl, congrArg some (hkeeps.items hitems)⟩
  | _ =>
    cases h
    exact ⟨hkeeps.kept _ _ rfl rfl Iff.rfl, rfl, rfl⟩

/-- A keyword with named schemas keeps what these accept. -/
theorem Keeps.inlineNamed (hkeeps : Keeps accepts accepts' change (valueChildren keyword value))
    (hnamed : keyword = "properties" ∨ keyword = "patternProperties")
    (h : Library.inlineValue change keyword value = .ok value') :
    (value.obj?.getD []).map (fun member => (member.1, accepts member.2)) =
      (value'.obj?.getD []).map fun member => (member.1, accepts' member.2) := by
  have hliteral : ¬ literalKeywords.contains keyword = true := by
    rcases hnamed with rfl | rfl <;> decide
  rw [valueChildren.eq_def, if_neg hliteral] at hkeeps
  rw [Library.inlineValue.eq_def, if_neg hliteral] at h
  cases value with
  | obj members =>
    simp only [if_pos hnamed] at hkeeps h
    obtain ⟨members', hmembers, h⟩ := bind_eq_ok.1 h
    cases h
    exact hkeeps.members hmembers
  | arr items =>
    obtain ⟨items', -, h⟩ := bind_eq_ok.1 h
    cases h
    rfl
  | _ =>
    cases h
    rfl

/-- A schema below an inlined keyword is what one below the keyword is inlined to. -/
theorem exists_of_mem_valueChildren_inlined
    (hschema : ∀ child ∈ valueChildren keyword value, child.obj?.isSome →
      ∀ child', change child = .ok child' → child'.IsSchema)
    (h : Library.inlineValue change keyword value = .ok value') {child' : Json}
    (hchild : child' ∈ valueChildren keyword value') :
    ∃ child ∈ valueChildren keyword value, change child = .ok child' := by
  by_cases hliteral : literalKeywords.contains keyword = true
  · rw [valueChildren.eq_def, if_pos hliteral] at hchild
    cases hchild
  rw [valueChildren.eq_def, if_neg hliteral] at hschema hchild ⊢
  rw [Library.inlineValue.eq_def, if_neg hliteral] at h
  cases value with
  | obj members =>
    by_cases hnamed : keyword = "properties" ∨ keyword = "patternProperties"
    · simp only [if_pos hnamed] at h ⊢
      obtain ⟨members', hmembers, h⟩ := bind_eq_ok.1 h
      cases h
      simp only [if_pos hnamed] at hchild
      have hall := forall₂_mapMembers hmembers
      obtain ⟨member', hmember', rfl⟩ := List.mem_map.1 hchild
      obtain ⟨member, hmember, -, hchange⟩ := exists_of_mem_forall₂ hall hmember'
      exact ⟨member.2, List.mem_map.2 ⟨member, hmember, rfl⟩, hchange⟩
    · simp only [if_neg hnamed] at hschema h hchild ⊢
      rcases hschema _ (List.mem_singleton_self _) rfl value' h with hobj | hbool
      · cases value' with
        | obj members' =>
          rw [List.mem_singleton.1 hchild]
          exact ⟨_, List.mem_singleton_self _, h⟩
        | _ => cases hobj
      · cases value' with
        | bool b => cases hchild
        | _ => cases hbool
  | arr items =>
    obtain ⟨items', hitems, h⟩ := bind_eq_ok.1 h
    cases h
    obtain ⟨hchild, hobj⟩ := List.mem_filter.1 hchild
    obtain ⟨item, hitem, ⟨hitemObj, hchange⟩ | ⟨hitemObj, rfl⟩⟩ :=
      exists_of_mem_forall₂ (forall₂_mapItems hitems) hchild
    · exact ⟨item, List.mem_filter.2 ⟨hitem, hitemObj⟩, hchange⟩
    · rw [hitemObj] at hobj
      cases hobj
  | _ =>
    cases h
    cases hchild

end Keeps

/-! ## Demands -/

/-- The schemas below a kept member are among those that inlining goes to. -/
theorem valueChildren_subset {members : List (String × Json)} {keyword : String} {value : Json}
    (h : (keyword, value) ∈ members) (hdropped : ¬ (keyword = "definitions" ∨ keyword = "$defs")) :
    valueChildren keyword value ⊆ memberChildren members := by
  intro child hchild
  induction members with
  | nil => cases h
  | cons member rest ih =>
    obtain ⟨name, own⟩ := member
    rw [memberChildren]
    rcases List.mem_cons.1 h with heq | h
    · cases heq
      rw [if_neg hdropped]
      exact List.mem_append_left _ hchild
    · split
      · exact ih h
      · exact List.mem_append_right _ (ih h)

namespace Inlines

variable {accepts accepts' : Json → Json → Prop} {change : Json → Except SchemaError Json}
  {schema inlined : Json}

theorem eq_false_iff (h : Inlines change schema inlined) :
    schema = .bool false ↔ inlined = .bool false := by
  cases h with
  | obj => simp
  | other => rfl

/-- A keyword of an inlined schema is missing, or its value is inlined and keeps what is accepted
below it. -/
theorem rel_get? (h : Inlines change schema inlined)
    (hkeeps : Keeps accepts accepts' change (inlineChildren schema)) (keyword : String)
    (hdropped : ¬ (keyword = "definitions" ∨ keyword = "$defs")) :
    Option.Rel (fun value value' => Keeps accepts accepts' change (valueChildren keyword value) ∧
        Library.inlineValue change keyword value = .ok value')
      (schema.get? keyword) (inlined.get? keyword) := by
  have hrel := h.get? keyword (fun heq => hdropped (Or.inl heq)) fun heq => hdropped (Or.inr heq)
  have hbelow : ∀ value, schema.get? keyword = some value →
      Keeps accepts accepts' change (valueChildren keyword value) := by
    intro value hvalue
    obtain ⟨members, rfl, hmember⟩ := Json.exists_mem_of_get? hvalue
    exact hkeeps.mono (valueChildren_subset hmember hdropped)
  generalize schema.get? keyword = value?, inlined.get? keyword = inlined? at hrel hbelow
  cases hrel with
  | none => exact Option.Rel.none
  | some hvalue => exact Option.Rel.some ⟨hbelow _ rfl, hvalue⟩

theorem acceptedNamed_eq (h : Inlines change schema inlined)
    (hkeeps : Keeps accepts accepts' change (inlineChildren schema)) {keyword : String}
    (hnamed : keyword = "properties" ∨ keyword = "patternProperties") :
    schema.acceptedNamed accepts keyword = inlined.acceptedNamed accepts' keyword := by
  have hrel := h.rel_get? hkeeps keyword (by rcases hnamed with rfl | rfl <;> decide)
  rw [Json.acceptedNamed, Json.acceptedNamed]
  generalize schema.get? keyword = value?, inlined.get? keyword = inlined? at hrel
  cases hrel with
  | none => rfl
  | some hvalue => exact hvalue.1.inlineNamed hnamed hvalue.2

/-- What a keyword with one schema or a list of schemas says stays. -/
theorem accepted_eq (h : Inlines change schema inlined)
    (hkeeps : Keeps accepts accepts' change (inlineChildren schema)) {keyword : String}
    (hkeyword : HoldsSchemas keyword) :
    schema.acceptedSingle accepts keyword = inlined.acceptedSingle accepts' keyword ∧
      ((schema.get? keyword).filter fun each => each.arr?.isNone).map accepts =
        ((inlined.get? keyword).filter fun each => each.arr?.isNone).map accepts' ∧
      schema.acceptedList accepts keyword = inlined.acceptedList accepts' keyword := by
  have hrel := h.rel_get? hkeeps keyword hkeyword.dropped
  rw [Json.acceptedSingle, Json.acceptedSingle, Json.acceptedList, Json.acceptedList]
  generalize schema.get? keyword = value?, inlined.get? keyword = inlined? at hrel
  cases hrel with
  | none => exact ⟨rfl, rfl, rfl⟩
  | @some value value' hvalue =>
    obtain ⟨haccepts, harr, hitems⟩ := hvalue.1.inlineValue hkeyword hvalue.2
    refine ⟨congrArg some haccepts, ?_, hitems⟩
    rw [Option.filter_some, Option.filter_some, harr]
    split
    · exact congrArg some haccepts
    · rfl

/-- **An inlined schema makes the same demands.** -/
theorem demands_eq (h : Inlines change schema inlined)
    (hkeeps : Keeps accepts accepts' change (inlineChildren schema)) :
    schema.demands accepts = inlined.demands accepts' := by
  have hkeyword : ∀ keyword ∈ ["additionalProperties", "items", "allOf", "anyOf", "oneOf", "not"],
      HoldsSchemas keyword := fun keyword hmem => by
    fin_cases hmem <;> exact ⟨by decide, by decide, by decide⟩
  have hsingle : ∀ keyword ∈ ["additionalProperties", "not"],
      schema.acceptedSingle accepts keyword = inlined.acceptedSingle accepts' keyword :=
    fun keyword hmem => (h.accepted_eq hkeeps (hkeyword keyword (by grind))).1
  have hlist : ∀ keyword ∈ ["items", "allOf", "anyOf", "oneOf"],
      schema.acceptedList accepts keyword = inlined.acceptedList accepts' keyword :=
    fun keyword hmem => (h.accepted_eq hkeeps (hkeyword keyword (by grind))).2.2
  rw [Json.demands, Json.demands, Demands.mk.injEq, hlist "items" (by decide),
    hlist "allOf" (by decide), h.get?_literal (by decide), h.get?_literal (by decide),
    h.get?_literal (by decide), h.get?_literal (by decide)]
  exact ⟨propext h.eq_false_iff, rfl, rfl, rfl, rfl, h.acceptedNamed_eq hkeeps (Or.inl rfl),
    h.acceptedNamed_eq hkeeps (Or.inr rfl), hsingle _ (by decide),
    (h.accepted_eq hkeeps (hkeyword _ (by decide))).2.1, rfl, rfl, hlist _ (by decide),
    hlist _ (by decide), hsingle _ (by decide)⟩

end Inlines

/-! ## Meaning -/

/-- The references that inlining follows from a place lead to schemas. -/
def LeadsToSchemas (library : Library (Except SchemaError)) (place : SchemaPlace) : Prop :=
  ∀ from_ next, Relation.ReflTransGen (library.Expands inlineChildren) place from_ →
    library.Refers from_ next → next.node.IsSchema

section Walk

variable {library : Library (Except SchemaError)} {document : String} {node inlined : Json}
  {active : List String}

/-- So do those that it follows from a node below. -/
theorem LeadsToSchemas.below (h : library.LeadsToSchemas ⟨document, node⟩) {resolved : Resolved}
    (hresolve : library.resolve document node = .ok resolved) {child : Json}
    (hchild : child ∈ inlineChildren resolved.schema) :
    library.LeadsToSchemas ⟨resolved.document, child⟩ := by
  obtain ⟨hwalk, href⟩ := follow_eq_ok hresolve
  have hway := (places_of_walk hwalk rfl (Or.inr rfl)).1
  have hdown : library.Expands inlineChildren resolved.place ⟨resolved.document, child⟩ :=
    Or.inr ⟨href, hchild, rfl⟩
  exact fun from_ next hfrom =>
    h from_ next (((expands_of_refers hway).tail hdown).trans hfrom)

/-- A reference to a schema, from which only references to schemas are followed. -/
theorem LeadsToSchemas.of_refers {place : SchemaPlace} (next : SchemaPlace)
    (h : library.Refers place next) (hschema : next.node.IsSchema)
    (hnext : library.LeadsToSchemas next) : library.LeadsToSchemas place := by
  intro from_ target hfrom htarget
  rcases hfrom.cases_head with rfl | ⟨middle, hstep | ⟨href, -, -⟩, hrest⟩
  · exact refers_rightUnique h htarget ▸ hschema
  · rw [refers_rightUnique hstep h] at hrest
    exact hnext from_ target hrest htarget
  · exact absurd href h.get?_ne_none

/-- A node without a reference, below which only references to schemas are followed. -/
theorem LeadsToSchemas.of_children {place : SchemaPlace} (h : place.node.get? "$ref" = none)
    (hbelow : ∀ child ∈ inlineChildren place.node,
      library.LeadsToSchemas ⟨place.document, child⟩) : library.LeadsToSchemas place := by
  intro from_ target hfrom htarget
  rcases hfrom.cases_head with rfl | ⟨middle, hstep | ⟨-, hchild, hdocument⟩, hrest⟩
  · exact absurd h htarget.get?_ne_none
  · exact absurd h hstep.get?_ne_none
  · exact hbelow _ hchild from_ target (by rwa [← hdocument]) htarget

/-- A node is resolved to itself or to a schema. -/
theorem LeadsToSchemas.resolved (h : library.LeadsToSchemas ⟨document, node⟩)
    {resolved : Resolved} (hresolve : library.resolve document node = .ok resolved) :
    resolved.schema = node ∨ resolved.schema.IsSchema := by
  have hway := (places_of_walk (follow_eq_ok hresolve).1 rfl (Or.inr (rfl : document = _))).1
  rcases hway.cases_tail with heq | ⟨from_, hfrom, hrefers⟩
  · exact Or.inl (congrArg SchemaPlace.node heq)
  · exact Or.inr (h from_ _ (expands_of_refers hfrom) hrefers)

/-- An object is inlined to a schema. -/
theorem LeadsToSchemas.isSchema (h : library.LeadsToSchemas ⟨document, node⟩)
    (hnode : node.obj?.isSome) {depth : Nat}
    (hinline : library.inlineWithin depth document node active = .ok inlined) :
    inlined.IsSchema := by
  cases depth with
  | zero => cases hinline
  | succ depth =>
    obtain ⟨resolved, henter, hinlines⟩ := inlineWithin_eq_ok hinline
    have hschema : resolved.schema.IsSchema := by
      rcases h.resolved (enter_eq_ok.1 henter).1 with heq | hschema
      · exact Or.inl (heq ▸ hnode)
      · exact hschema
    generalize resolved.schema = schema at hinlines hschema
    cases hinlines with
    | obj => exact Or.inl rfl
    | other => exact hschema

/-- **Inlined schemas have no references.** -/
theorem get?_ref_of_schemaIn {depth : Nat} (h : library.LeadsToSchemas ⟨document, node⟩)
    (hinline : library.inlineWithin depth document node active = .ok inlined) {part : Json}
    (hpart : inlined.SchemaIn part) : part.get? "$ref" = none := by
  induction depth generalizing document node active inlined with
  | zero => cases hinline
  | succ depth ih =>
    obtain ⟨resolved, henter, hinlines⟩ := inlineWithin_eq_ok hinline
    have hresolve := (enter_eq_ok.1 henter).1
    cases hpart with
    | self => exact hinlines.get?_ref (get?_ref_of_resolve hresolve)
    | under hmember hbelow hpart =>
      generalize hschema : resolved.schema = schema at hinlines
      cases hinlines with
      | other hobj => cases hobj
      | obj hmembers =>
        obtain ⟨value, hvalue, hdropped, hchange⟩ := exists_of_mem_inlineMembers hmembers hmember
        have hmem : ∀ child ∈ valueChildren _ value, child ∈ inlineChildren resolved.schema :=
          fun child hchild => hschema ▸ valueChildren_subset hvalue hdropped hchild
        obtain ⟨child, hchild, hinlined⟩ := exists_of_mem_valueChildren_inlined
          (fun child hchild hobj _ => (h.below hresolve (hmem child hchild)).isSchema hobj) hchange
          hbelow
        exact ih (h.below hresolve (hmem child hchild)) hinlined hpart

/-- **Inlining keeps what a schema accepts**, given enough steps: those for the references are
saved. -/
theorem acceptsWithin_inlineWithin (library' : Library (Except SchemaError)) (other : String)
    {depth : Nat} (h : library.LeadsToSchemas ⟨document, node⟩)
    (hinline : library.inlineWithin depth document node active = .ok inlined) {steps steps' : Nat}
    (hsteps : depth * (library.bound + 1) < steps) (hsteps' : depth < steps') :
    library.AcceptsWithin steps document node = library'.AcceptsWithin steps' other inlined := by
  induction depth generalizing document node active inlined steps steps' with
  | zero => cases hinline
  | succ depth ih =>
    obtain ⟨resolved, henter, hinlines⟩ := inlineWithin_eq_ok hinline
    have hresolve := (enter_eq_ok.1 henter).1
    have href := get?_ref_of_resolve hresolve
    obtain ⟨count, hcount, hfollow⟩ := acceptsWithin_of_follow hresolve
    rw [Nat.add_one_mul] at hsteps
    obtain ⟨rest, rfl⟩ : ∃ rest, steps = rest + 1 + count := ⟨steps - count - 1, by omega⟩
    obtain ⟨rest', rfl⟩ : ∃ rest, steps' = rest + 1 := ⟨steps' - 1, by omega⟩
    have hkeeps : Keeps (library.AcceptsWithin rest resolved.document)
        (library'.AcceptsWithin rest' other)
        (fun child =>
          library.inlineWithin depth resolved.document child (active ++ resolved.chain))
        (inlineChildren resolved.schema) := by
      refine ⟨fun child hchild child' hchange => ?_, fun child hchild hobj child' hchange => ?_,
        fun part part' hpart hpart' hfalse => ?_⟩
      · exact ih (h.below hresolve hchild) hchange (by omega) (by omega)
      · exact (h.below hresolve hchild).isSchema hobj hchange
      · exact acceptsWithin_congr_of_obj?_eq_none hpart hpart' hfalse _ _ (by omega) (by omega)
    rw [hfollow, acceptsWithin_eq_demands href,
      acceptsWithin_eq_demands (hinlines.get?_ref href), hinlines.demands_eq hkeeps]

end Walk

/-- What is true from some number on is true of both of two sequences that agree from a number
on. -/
theorem exists_forall_ge_iff {p q : Nat → Prop} {enough : Nat}
    (h : ∀ n ≥ enough, ∀ m ≥ enough, (q m ↔ p n)) :
    (∃ start, ∀ m ≥ start, q m) ↔ ∃ start, ∀ n ≥ start, p n := by
  constructor
  · rintro ⟨start, hstart⟩
    exact ⟨enough, fun n hn => (h n hn (max start enough) (le_max_right _ _)).1
      (hstart _ (le_max_left _ _))⟩
  · rintro ⟨start, hstart⟩
    exact ⟨enough, fun m hm => (h (max start enough) (le_max_right _ _) m hm).2
      (hstart _ (le_max_left _ _))⟩

/-- So many steps are enough for whatever a library can inline. -/
def enoughFor (library : Library (Except SchemaError)) : Nat :=
  library.bound * (library.bound + 1) + 1

/-- **Inlining keeps the meaning of a schema.** Where every reference that is followed leads to an
object or a truth value, no schema in the result has a reference, and the result accepts a value in
whatever documents exactly when the node does in its own. Of every value it is settled whether it is
accepted. -/
theorem accepts_inline {library : Library (Except SchemaError)} {document : String}
    {node inlined : Json} (h : library.inline document node = .ok inlined)
    (hschemas : library.LeadsToSchemas ⟨document, node⟩) :
    (∀ part, inlined.SchemaIn part → part.get? "$ref" = none) ∧
    ∀ (library' : Library (Except SchemaError)) (other : String) (value : Json),
      (library'.Accepts other inlined value ↔ library.Accepts document node value) ∧
      (library'.Rejects other inlined value ↔ library.Rejects document node value) ∧
      (library.Accepts document node value ∨ library.Rejects document node value) := by
  refine ⟨fun part => get?_ref_of_schemaIn hschemas h, fun library' other value => ?_⟩
  have hsame : ∀ steps ≥ enoughFor library, ∀ steps' ≥ enoughFor library,
      (library'.AcceptsWithin steps' other inlined value ↔
        library.AcceptsWithin steps document node value) := by
    intro steps hsteps steps' hsteps'
    rw [enoughFor] at hsteps hsteps'
    have hbound : library.bound ≤ library.bound * (library.bound + 1) :=
      Nat.le_mul_of_pos_right _ (Nat.succ_pos _)
    rw [acceptsWithin_inlineWithin library' other hschemas h (show _ < steps by omega)
      (show _ < steps' by omega)]
  refine ⟨exists_forall_ge_iff hsame, exists_forall_ge_iff fun steps hsteps steps' hsteps' =>
    not_congr (hsame steps hsteps steps' hsteps'), ?_⟩
  by_cases haccepts : library'.AcceptsWithin (enoughFor library) other inlined value
  · exact Or.inl ⟨_, fun steps hsteps => (hsame steps hsteps _ (le_refl _)).1 haccepts⟩
  · exact Or.inr ⟨_, fun steps hsteps hnode =>
      haccepts ((hsame steps hsteps _ (le_refl _)).2 hnode)⟩

/-- The documents of a box, whose size is no text and whose lid may be anything. -/
def boxDocuments : Entries Json :=
  [("box", .obj [("definitions", .obj [("any", .bool true)]),
      ("properties", .obj [("size", .obj [("$ref", .str "units#/definitions/size")]),
        ("lid", .obj [("$ref", .str "#/definitions/any")])])]),
    ("units", .obj [("definitions", .obj [
      ("size", .obj [("not", .obj [("$ref", .str "#/definitions/text")])]),
      ("text", .obj [("type", .str "string")])])])]

/-- A box, inlined. -/
def inlinedBox : Json :=
  .obj [("properties", .obj [("size", .obj [("not", .obj [("type", .str "string")])]),
    ("lid", .bool true)])]

theorem leadsToSchemas_box :
    (ofDocuments boxDocuments 5).LeadsToSchemas ⟨"order", .obj [("$ref", .str "box")]⟩ := by
  have hsize : (ofDocuments boxDocuments 5).LeadsToSchemas
      ⟨"units", .obj [("not", .obj [("$ref", .str "#/definitions/text")])]⟩ := by
    refine LeadsToSchemas.of_children rfl fun child hchild => ?_
    rw [List.mem_singleton.1 hchild]
    exact LeadsToSchemas.of_refers ⟨"units", .obj [("type", .str "string")]⟩
      ⟨_, "", "/definitions/text", rfl, rfl, rfl, _, rfl, rfl⟩ (Or.inl rfl)
      (LeadsToSchemas.of_children rfl nofun)
  have hlid : (ofDocuments boxDocuments 5).LeadsToSchemas ⟨"box", .bool true⟩ :=
    LeadsToSchemas.of_children rfl nofun
  refine LeadsToSchemas.of_refers ⟨"box", _⟩ ⟨_, "box", "", rfl, rfl, rfl, _, rfl, rfl⟩
    (Or.inl rfl) (LeadsToSchemas.of_children rfl fun child hchild => ?_)
  rcases List.mem_pair.1 hchild with rfl | rfl
  · exact LeadsToSchemas.of_refers ⟨"units", _⟩
      ⟨_, "units", "/definitions/size", rfl, rfl, rfl, _, rfl, rfl⟩ (Or.inl rfl) hsize
  · exact LeadsToSchemas.of_refers ⟨"box", .bool true⟩
      ⟨_, "", "/definitions/any", rfl, rfl, rfl, _, rfl, rfl⟩ (Or.inr rfl) hlid

theorem accepts_inline_box :
    (ofDocuments boxDocuments 5).inline "order" (.obj [("$ref", .str "box")]) = .ok inlinedBox ∧
    (∀ part, inlinedBox.SchemaIn part → part.get? "$ref" = none) ∧
    ∀ (library' : Library (Except SchemaError)) (other : String) (value : Json),
      (library'.Accepts other inlinedBox value ↔
        (ofDocuments boxDocuments 5).Accepts "order" (.obj [("$ref", .str "box")]) value) ∧
      (library'.Rejects other inlinedBox value ↔
        (ofDocuments boxDocuments 5).Rejects "order" (.obj [("$ref", .str "box")]) value) ∧
      ((ofDocuments boxDocuments 5).Accepts "order" (.obj [("$ref", .str "box")]) value ∨
        (ofDocuments boxDocuments 5).Rejects "order" (.obj [("$ref", .str "box")]) value) :=
  ⟨rfl, accepts_inline rfl leadsToSchemas_box⟩

end Library

end TableExport
