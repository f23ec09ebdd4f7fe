import TableExport.Proofs.Schema.Children
import TableExport.Proofs.Schema.History

/-!
# What the check of a document covers

The check of a document goes from schema to schema: below `properties`, `definitions` and `$defs` to
each named one, and below `items` (`Shape.SchemaPath`). So does typing, except that a reference can
lead anywhere. Where the references lead from schema to schema as well, all that typing goes to was
checked (`Library.passes_of_goesTo`), and the keywords that it relies on have values of the right
kind (`History.wellShaped_of_goesTo`).

What stands elsewhere is not looked at, and typing goes there if a reference does
(`History.not_wellShaped_aside`).
-/

namespace TableExport

/-- The keywords that typing relies on have values of the right kind. -/
structure WellShaped (schema : Json) : Prop where
  type : ∀ value, schema.get? "type" = some value → (∃ name, value = .str name) ∨
    ∃ names, value = .arr names ∧ ∀ name ∈ names, ∃ text, name = .str text
  properties : ∀ value, schema.get? "properties" = some value → ∃ members, value = .obj members
  items : ∀ value, schema.get? "items" = some value →
    (∃ members, value = .obj members) ∨ ∃ truth, value = .bool truth

namespace Shape

/-- A path that leads from schema to schema: through a name below one of the keywords that hold
named schemas, or through `items`. -/
inductive SchemaPath : List String → Prop
  | nil : SchemaPath []
  | named {keyword name : String} {rest : List String} :
    keyword ∈ ["properties", "definitions", "$defs"] → SchemaPath rest →
    SchemaPath (keyword :: name :: rest)
  | items {rest : List String} : SchemaPath rest → SchemaPath ("items" :: rest)

/-- The check finds nothing wrong with a schema, somewhere in a document. -/
def Passes (schema : Json) : Prop := ∃ document pointer, checkAt document pointer schema = .ok ()

variable {document pointer keyword : String} {members : Entries Json} {schema : Json}

theorem passes_bool (truth : Bool) : Passes (.bool truth) := ⟨"", "/items", rfl⟩

theorem isTypeValue_iff {value : Json} : isTypeValue value = true ↔ (∃ name, value = .str name) ∨
    ∃ names, value = .arr names ∧ ∀ name ∈ names, ∃ text, name = .str text := by
  have htext : ∀ name : Json, name.str?.isSome = true ↔ ∃ text, name = .str text := by
    intro name
    cases name <;> simp [Json.str?]
  cases value <;> simp [isTypeValue, htext]

/-! ## The steps of the check -/

theorem steps_of_checkAt (h : checkAt document pointer (.obj members) = .ok ()) :
    checkType document pointer members = .ok () ∧
    checkKeyword document pointer "properties" members = .ok () ∧
    checkKeyword document pointer "definitions" members = .ok () ∧
    checkKeyword document pointer "$defs" members = .ok () ∧
    checkItems document pointer members = .ok () := by
  rw [checkAt] at h
  obtain ⟨⟨⟩, htype, h⟩ := bind_eq_ok.1 h
  obtain ⟨⟨⟩, hproperties, h⟩ := bind_eq_ok.1 h
  obtain ⟨⟨⟩, hdefinitions, h⟩ := bind_eq_ok.1 h
  obtain ⟨⟨⟩, hdefs, hitems⟩ := bind_eq_ok.1 h
  exact ⟨htype, hproperties, hdefinitions, hdefs, hitems⟩

theorem isTypeValue_of_checkType (h : checkType document pointer members = .ok ()) {value : Json}
    (hvalue : members.get? "type" = some value) : isTypeValue value = true := by
  rw [checkType, hvalue] at h
  simp only at h
  split_ifs at h with htype
  exact htype

theorem passes_of_checkChildren (h : checkChildren document pointer members = .ok ()) :
    ∀ member ∈ members, Passes member.2 := by
  induction members with
  | nil => exact fun _ hmember => nomatch hmember
  | cons member rest ih =>
    obtain ⟨name, child⟩ := member
    rw [checkChildren] at h
    obtain ⟨⟨⟩, hchild, hrest⟩ := bind_eq_ok.1 h
    exact List.forall_mem_cons.2 ⟨⟨_, _, hchild⟩, ih hrest⟩

theorem passes_of_checkKeyword (h : checkKeyword document pointer keyword members = .ok ())
    {value : Json} (hvalue : members.get? keyword = some value) :
    ∃ children, value = .obj children ∧ ∀ child ∈ children, Passes child.2 := by
  induction members with
  | nil => cases hvalue
  | cons member rest ih =>
    obtain ⟨name, first⟩ := member
    rw [checkKeyword.eq_def] at h
    simp only at h
    split_ifs at h with hname
    · subst hname
      rw [Entries.get?_cons_self] at hvalue
      cases hvalue
      cases value with
      | obj children => exact ⟨children, rfl, passes_of_checkChildren h⟩
      | _ => cases h
    · rw [Entries.get?_cons_of_ne hname] at hvalue
      exact ih h hvalue

theorem passes_of_checkItems (h : checkItems document pointer members = .ok ()) {value : Json}
    (hvalue : members.get? "items" = some value) :
    ((∃ parts, value = .obj parts) ∨ ∃ truth, value = .bool truth) ∧ Passes value := by
  induction members with
  | nil => cases hvalue
  | cons member rest ih =>
    obtain ⟨name, first⟩ := member
    rw [checkItems.eq_def] at h
    simp only at h
    split_ifs at h with hname
    · subst hname
      rw [Entries.get?_cons_self] at hvalue
      cases hvalue
      cases value with
      | obj parts => exact ⟨Or.inl ⟨parts, rfl⟩, _, _, h⟩
      | bool truth => exact ⟨Or.inr ⟨truth, rfl⟩, passes_bool truth⟩
      | _ => cases h
    · rw [Entries.get?_cons_of_ne hname] at hvalue
      exact ih h hvalue

/-! ## Schemas that pass -/

/-- What passes is an object or a truth value. -/
theorem Passes.cases (h : Passes schema) :
    (∃ members, schema = .obj members) ∨ ∃ truth, schema = .bool truth := by
  obtain ⟨document, pointer, h⟩ := h
  cases schema with
  | obj members => exact Or.inl ⟨members, rfl⟩
  | bool truth => exact Or.inr ⟨truth, rfl⟩
  | _ => cases h

/-- The named schemas of a schema that passes do so. -/
theorem Passes.named (h : Passes schema)
    (hkeyword : keyword ∈ ["properties", "definitions", "$defs"]) {value : Json}
    (hvalue : schema.get? keyword = some value) :
    ∃ children, value = .obj children ∧ ∀ child ∈ children, Passes child.2 := by
  obtain ⟨document, pointer, h⟩ := h
  obtain ⟨members, rfl, -⟩ := Json.exists_mem_of_get? hvalue
  obtain ⟨-, hproperties, hdefinitions, hdefs, -⟩ := steps_of_checkAt h
  simp only [List.mem_cons, List.not_mem_nil, or_false] at hkeyword
  rcases hkeyword with rfl | rfl | rfl
  · exact passes_of_checkKeyword hproperties hvalue
  · exact passes_of_checkKeyword hdefinitions hvalue
  · exact passes_of_checkKeyword hdefs hvalue

/-- The items of a schema that passes do so. -/
theorem Passes.items (h : Passes schema) {value : Json}
    (hvalue : schema.get? "items" = some value) :
    ((∃ parts, value = .obj parts) ∨ ∃ truth, value = .bool truth) ∧ Passes value := by
  obtain ⟨document, pointer, h⟩ := h
  obtain ⟨members, rfl, -⟩ := Json.exists_mem_of_get? hvalue
  exact passes_of_checkItems (steps_of_checkAt h).2.2.2.2 hvalue

/-- **A schema that passes has keywords with values of the right kind.** -/
theorem Passes.wellShaped (h : Passes schema) : WellShaped schema where
  type value hvalue := by
    obtain ⟨document, pointer, h⟩ := h
    obtain ⟨members, rfl, -⟩ := Json.exists_mem_of_get? hvalue
    exact isTypeValue_iff.1 (isTypeValue_of_checkType (steps_of_checkAt h).1 hvalue)
  properties value hvalue := by
    obtain ⟨children, hchildren, -⟩ := h.named (List.mem_cons_self ..) hvalue
    exact ⟨children, hchildren⟩
  items value hvalue := (h.items hvalue).1

/-- **What a path from schema to schema leads to was checked.** -/
theorem Passes.walk {path : List String} {node : Json} (h : Passes schema) (hpath : SchemaPath path)
    (hwalk : Pointer.walk schema path = .ok node) : Passes node := by
  induction hpath generalizing schema with
  | nil =>
    cases hwalk
    exact h
  | @named keyword name rest hkeyword _ ih =>
    rw [Pointer.walk] at hwalk
    cases hchild : Pointer.child? schema keyword with
    | none =>
      rw [hchild] at hwalk
      cases hwalk
    | some value =>
      rw [hchild] at hwalk
      have hvalue : schema.get? keyword = some value := by
        rcases h.cases with ⟨members, rfl⟩ | ⟨truth, rfl⟩
        · exact hchild
        · cases hchild
      obtain ⟨children, rfl, hchildren⟩ := h.named hkeyword hvalue
      simp only [Pointer.walk, Pointer.child?] at hwalk
      cases hnamed : Entries.get? children name with
      | none =>
        rw [hnamed] at hwalk
        cases hwalk
      | some part =>
        rw [hnamed] at hwalk
        exact ih (hchildren _ (Entries.mem_of_get? hnamed)) hwalk
  | items _ ih =>
    rw [Pointer.walk] at hwalk
    cases hchild : Pointer.child? schema "items" with
    | none =>
      rw [hchild] at hwalk
      cases hwalk
    | some value =>
      rw [hchild] at hwalk
      have hvalue : schema.get? "items" = some value := by
        rcases h.cases with ⟨members, rfl⟩ | ⟨truth, rfl⟩
        · exact hchild
        · cases hchild
      exact ih (h.items hvalue).2 hwalk

end Shape

/-! ## Where typing goes -/

namespace Library

variable {library : Library (Except SchemaError)}

/-- All documents that are read were checked. -/
def Checked (library : Library (Except SchemaError)) : Prop :=
  ∀ name root, library.read name = .ok root → Shape.check name root = .ok ()

/-- Typing goes from a place to the next one, by a reference only if it leads from schema to
schema. -/
def GoesTo (library : Library (Except SchemaError)) (place next : SchemaPlace) : Prop :=
  library.Expands typeChildren place next ∧
    ∀ reference target pointer, place.node.get? "$ref" = some (.str reference) →
      SchemaReference.split? reference = some (target, pointer) →
      Shape.SchemaPath ((Pointer.segments pointer).map Pointer.unescape)

theorem goesTo_of_refers {place next : SchemaPlace} {reference target pointer : String}
    (href : place.node.get? "$ref" = some (.str reference))
    (hsplit : SchemaReference.split? reference = some (target, pointer))
    (hpath : Shape.SchemaPath ((Pointer.segments pointer).map Pointer.unescape))
    (hdocument : next.document = if target.isEmpty then place.document else target)
    (hat : library.At next pointer) : library.GoesTo place next := by
  refine ⟨Or.inl ⟨reference, target, pointer, href, hsplit, hdocument, hat⟩, ?_⟩
  intro own target' pointer' hown hsplit'
  rw [href] at hown
  cases hown
  rw [hsplit] at hsplit'
  cases hsplit'
  exact hpath

theorem goesTo_of_child {document : String} {node child : Json} (href : node.get? "$ref" = none)
    (hchild : child ∈ typeChildren node) :
    library.GoesTo ⟨document, node⟩ ⟨document, child⟩ := by
  refine ⟨Or.inr ⟨href, hchild, rfl⟩, fun reference _ _ hown _ => ?_⟩
  rw [show node.get? "$ref" = _ from hown] at href
  cases href

theorem passes_of_mem_typeChildren {schema : Json} (h : Shape.Passes schema) :
    ∀ child ∈ typeChildren schema, Shape.Passes child := by
  refine forall_mem_typeChildren (Shape.passes_bool true) (fun _ hitems => (h.items hitems).2)
    fun properties hproperties => ?_
  obtain ⟨children, hchildren, hpasses⟩ := h.named (List.mem_cons_self ..) hproperties
  cases hchildren
  exact hpasses

/-- **A step of typing leads from what was checked to what was checked.** -/
theorem passes_of_step (hlibrary : library.Checked) {place next : SchemaPlace}
    (h : Shape.Passes place.node) (hstep : library.GoesTo place next) :
    Shape.Passes next.node := by
  obtain ⟨⟨reference, target, pointer, href, hsplit, -, root, hroot, hlookup⟩ | ⟨-, hchild, -⟩,
    hpath⟩ := hstep
  · have hchecked : Shape.Passes root := ⟨_, _, hlibrary _ root hroot⟩
    exact hchecked.walk (hpath reference target pointer href hsplit) hlookup
  · exact passes_of_mem_typeChildren h _ hchild

theorem passes_of_goesTo (hlibrary : library.Checked) {place next : SchemaPlace}
    (h : Shape.Passes place.node) (hwalk : Relation.ReflTransGen library.GoesTo place next) :
    Shape.Passes next.node := by
  induction hwalk with
  | refl => exact h
  | tail _ hstep ih => exact passes_of_step hlibrary ih hstep

end Library

/-! ## Sessions -/

namespace History

/-- What a session reads in the end, as a library. -/
def library (history : History) (folder : String) (bound : Nat) : Library (Except SchemaError) :=
  ⟨history.known.reading (history.workspace.schema folder), bound⟩

/-- All that a session reads was checked, when it was registered or when it is loaded. -/
theorem checked_library (folder : String) (workspace : Workspace) (operations : List Operation)
    (bound : Nat) : ((after folder workspace operations).library folder bound).Checked := by
  obtain ⟨-, events, -, hpassage⟩ := Operation.foldl_note folder operations { workspace }
  have hknown : (after folder workspace operations).known.Checked :=
    hpassage.checked fun _ _ hget => nomatch hget
  intro name root hread
  change (after folder workspace operations).known.reading _ name = _ at hread
  cases hget : (after folder workspace operations).known.get? name with
  | some document =>
    rw [Documents.reading_of_get? hget] at hread
    cases hread
    exact hknown name root hget
  | none =>
    rw [Documents.reading_of_unknown hget] at hread
    exact Operation.check_of_schema hread

/-- **Typing sees schemas of the right shape**, in every session, whichever documents were
registered and loaded and whatever happened to their files: the keywords have values of the right
kind wherever typing goes to from the root of a document, through properties, items and references
that lead from schema to schema. -/
theorem wellShaped_of_goesTo (folder : String) (workspace : Workspace)
    (operations : List Operation) {bound : Nat} {document : String} {root : Json}
    {place : SchemaPlace}
    (hread : ((after folder workspace operations).library folder bound).read document = .ok root)
    (hwalk : Relation.ReflTransGen ((after folder workspace operations).library folder bound).GoesTo
      ⟨document, root⟩ place) : WellShaped place.node := by
  have hchecked := checked_library folder workspace operations bound
  have hroot : Shape.Passes root := ⟨_, _, hchecked document root hread⟩
  exact (Library.passes_of_goesTo hchecked hroot hwalk).wellShaped

/-- A tag, which may be missing. -/
def tagSchema : Json := .obj [("type", .arr [.str "null", .str "string"])]

/-- A document whose property refers to a definition, and the items of that to another one. -/
def linkedDocument : Json :=
  .obj [("properties", .obj [("tags", .obj [("$ref", .str "#/definitions/list")])]),
    ("definitions", .obj [("list", .obj [("items", .obj [("$ref", .str "#/$defs/tag")])])]),
    ("$defs", .obj [("tag", tagSchema)])]

/-- What a session reads in which it is registered. -/
def linkedLibrary : Library (Except SchemaError) :=
  (after "" ⟨"", [], []⟩ [.register "linked" linkedDocument]).library "" 9

theorem wellShaped_linked :
    linkedLibrary.read "linked" = .ok linkedDocument ∧
    Relation.ReflTransGen linkedLibrary.GoesTo ⟨"linked", linkedDocument⟩ ⟨"linked", tagSchema⟩ ∧
    WellShaped tagSchema := by
  have hread : linkedLibrary.read "linked" = .ok linkedDocument := rfl
  have htags : linkedLibrary.GoesTo ⟨"linked", linkedDocument⟩
      ⟨"linked", .obj [("$ref", .str "#/definitions/list")]⟩ :=
    Library.goesTo_of_child rfl (List.mem_singleton_self _)
  have hlist : linkedLibrary.GoesTo ⟨"linked", .obj [("$ref", .str "#/definitions/list")]⟩
      ⟨"linked", .obj [("items", .obj [("$ref", .str "#/$defs/tag")])]⟩ :=
    Library.goesTo_of_refers rfl rfl (.named (by decide) .nil) rfl ⟨_, hread, rfl⟩
  have hitems : linkedLibrary.GoesTo
      ⟨"linked", .obj [("items", .obj [("$ref", .str "#/$defs/tag")])]⟩
      ⟨"linked", .obj [("$ref", .str "#/$defs/tag")]⟩ :=
    Library.goesTo_of_child rfl (List.mem_singleton_self _)
  have htag : linkedLibrary.GoesTo ⟨"linked", .obj [("$ref", .str "#/$defs/tag")]⟩
      ⟨"linked", tagSchema⟩ :=
    Library.goesTo_of_refers rfl rfl (.named (by decide) .nil) rfl ⟨_, hread, rfl⟩
  have hwalk := (((Relation.ReflTransGen.single htags).tail hlist).tail hitems).tail htag
  exact ⟨hread, hwalk,
    wellShaped_of_goesTo "" ⟨"", [], []⟩ [.register "linked" linkedDocument] hread hwalk⟩

/-- A document whose property refers to what stands aside of all schemas. -/
def asideDocument : Json :=
  .obj [("properties", .obj [("tag", .obj [("$ref", .str "#/aside")])]),
    ("aside", .obj [("type", .arr [.str "string", .null])])]

/-- What a session reads in which it is registered. -/
def asideLibrary : Library (Except SchemaError) :=
  (after "" ⟨"", [], []⟩ [.register "aside" asideDocument]).library "" 9

/-- The document is accepted, and typing goes to a schema whose type is no list of names, and
succeeds. -/
theorem not_wellShaped_aside :
    (Documents.empty.register "aside" asideDocument).1 = .ok () ∧
    asideLibrary.read "aside" = .ok asideDocument ∧
    Relation.ReflTransGen (asideLibrary.Expands Library.typeChildren) ⟨"aside", asideDocument⟩
      ⟨"aside", .obj [("type", .arr [.str "string", .null])]⟩ ∧
    ¬ WellShaped (.obj [("type", .arr [.str "string", .null])]) ∧
    asideLibrary.tableRoot "aside" asideDocument =
      .ok (.composite { name := "_root", isArray := true }
        [.leaf { name := "tag", typeName := some "aside" } .string]) := by
  have hread : asideLibrary.read "aside" = .ok asideDocument := rfl
  have htag : asideLibrary.GoesTo ⟨"aside", asideDocument⟩
      ⟨"aside", .obj [("$ref", .str "#/aside")]⟩ :=
    Library.goesTo_of_child rfl (List.mem_singleton_self _)
  have haside : asideLibrary.Expands Library.typeChildren ⟨"aside", .obj [("$ref", .str "#/aside")]⟩
      ⟨"aside", .obj [("type", .arr [.str "string", .null])]⟩ :=
    Or.inl ⟨_, _, _, rfl, rfl, rfl, _, hread, rfl⟩
  refine ⟨rfl, hread, (Relation.ReflTransGen.single htag.1).tail haside, fun hshape => ?_, rfl⟩
  rcases hshape.type _ rfl with ⟨name, hname⟩ | ⟨names, hnames, htexts⟩
  · cases hname
  · cases hnames
    obtain ⟨text, htext⟩ := htexts .null (by simp)
    cases htext

end History

end TableExport
