import TableExport.Proofs.Entries
import TableExport.Proofs.Schema.Inlining

/-!
# Objects without repeated names

An object has one value for a name (`Json.Distinct`). What a pointer leads to inside of such
objects, what a reference is resolved to and what a schema is inlined to are made of such objects
as well (`Library.distinct_inline`).
-/

namespace TableExport

/-- No object in a value has two members of one name. -/
inductive Json.Distinct : Json → Prop
  | obj {members : List (String × Json)} : (Entries.keys members).Nodup →
    (∀ member ∈ members, member.2.Distinct) → Distinct (.obj members)
  | arr {items : List Json} : (∀ item ∈ items, item.Distinct) → Distinct (.arr items)
  | other {value : Json} : value.obj? = none → value.arr? = none → Distinct value

namespace Json.Distinct

theorem of_obj {members : List (String × Json)} (h : (Json.obj members).Distinct) :
    (Entries.keys members).Nodup ∧ ∀ member ∈ members, member.2.Distinct := by
  cases h with
  | obj hnodup hmembers => exact ⟨hnodup, hmembers⟩
  | other hobj => cases hobj

theorem of_arr {items : List Json} (h : (Json.arr items).Distinct) :
    ∀ item ∈ items, item.Distinct := by
  cases h with
  | arr hitems => exact hitems
  | other _ harr => cases harr

@[simp] theorem str (text : String) : (Json.str text).Distinct := other rfl rfl

@[simp] theorem obj_iff {members : List (String × Json)} : (Json.obj members).Distinct ↔
    (Entries.keys members).Nodup ∧ ∀ member ∈ members, member.2.Distinct :=
  ⟨of_obj, fun h => obj h.1 h.2⟩

@[simp] theorem arr_iff {items : List Json} :
    (Json.arr items).Distinct ↔ ∀ item ∈ items, item.Distinct :=
  ⟨of_arr, arr⟩

/-- The part of a value that a segment names is made of the same objects. -/
theorem child? {value part : Json} {segment : String} (h : value.Distinct)
    (hpart : Pointer.child? value segment = some part) : part.Distinct := by
  cases value with
  | obj members => exact h.of_obj.2 _ (Entries.mem_of_get? hpart)
  | arr items =>
    obtain ⟨i, -, hitem⟩ := Option.bind_eq_some_iff.1 hpart
    exact h.of_arr _ (List.mem_of_getElem? hitem)
  | _ => cases hpart

theorem walk {value part : Json} {segments : List String} (h : value.Distinct)
    (hpart : Pointer.walk value segments = .ok part) : part.Distinct := by
  induction segments generalizing value with
  | nil =>
    cases hpart
    exact h
  | cons segment rest ih =>
    rw [Pointer.walk] at hpart
    split at hpart
    · rename_i next hnext
      exact ih (h.child? hnext) hpart
    · cases hpart

end Json.Distinct

namespace Library

variable {library : Library (Except SchemaError)}

/-- No object in a document of a library has two members of one name. -/
def Distinct (library : Library (Except SchemaError)) : Prop :=
  ∀ name root, library.read name = .ok root → root.Distinct

theorem distinct_ofDocuments {documents : Entries Json}
    (h : ∀ document ∈ documents, document.2.Distinct) (bound : Nat) :
    (ofDocuments documents bound).Distinct := by
  intro name root hread
  exact h _ (mem_of_read_ofDocuments hread)

/-- What a node is resolved to is made of the objects of the documents and of the node. -/
theorem distinct_resolve (hlibrary : library.Distinct) {document : String} {node : Json}
    {resolved : Resolved} (h : library.resolve document node = .ok resolved)
    (hnode : node.Distinct) : resolved.schema.Distinct := by
  obtain ⟨hwalk, -⟩ := follow_eq_ok h
  induction hwalk with
  | refl => exact hnode
  | tail _ hstep _ =>
    obtain ⟨reference, -, hhop⟩ := hstep
    obtain ⟨_, pointer, root, -, -, -, hread, hlookup, -⟩ := hop_eq_ok hhop
    exact (hlibrary _ root hread).walk hlookup

section Values

variable {change : Json → Except SchemaError Json}
  (hchange : ∀ child child', change child = .ok child' → child.Distinct → child'.Distinct)

include hchange

theorem distinct_mapMembers {members members' : List (String × Json)}
    (h : mapMembers change members = .ok members')
    (hmembers : ∀ member ∈ members, member.2.Distinct) :
    Entries.keys members' = Entries.keys members ∧ ∀ member ∈ members', member.2.Distinct := by
  induction members generalizing members' with
  | nil =>
    cases h
    exact ⟨rfl, hmembers⟩
  | cons member rest ih =>
    obtain ⟨name, value⟩ := member
    rw [List.forall_mem_cons] at hmembers
    rw [mapMembers] at h
    obtain ⟨value', hvalue, h⟩ := bind_eq_ok.1 h
    obtain ⟨rest', hrest, h⟩ := bind_eq_ok.1 h
    cases h
    obtain ⟨hkeys, hdistinct⟩ := ih hrest hmembers.2
    refine ⟨?_, List.forall_mem_cons.2 ⟨hchange value value' hvalue hmembers.1, hdistinct⟩⟩
    rw [Entries.keys_cons, Entries.keys_cons, hkeys]

theorem distinct_mapItems {items items' : List Json} (h : mapItems change items = .ok items')
    (hitems : ∀ item ∈ items, item.Distinct) : ∀ item ∈ items', item.Distinct := by
  induction items generalizing items' with
  | nil =>
    cases h
    exact hitems
  | cons item rest ih =>
    rw [List.forall_mem_cons] at hitems
    cases item with
    | obj members =>
      obtain ⟨item', hitem, h⟩ := bind_eq_ok.1 h
      obtain ⟨rest', hrest, h⟩ := bind_eq_ok.1 h
      cases h
      exact List.forall_mem_cons.2 ⟨hchange _ _ hitem hitems.1, ih hrest hitems.2⟩
    | _ =>
      obtain ⟨rest', hrest, h⟩ := map_eq_ok.1 h
      cases h
      exact List.forall_mem_cons.2 ⟨hitems.1, ih hrest hitems.2⟩

theorem distinct_inlineValue {keyword : String} {value value' : Json}
    (h : inlineValue change keyword value = .ok value') (hvalue : value.Distinct) :
    value'.Distinct := by
  rw [inlineValue.eq_def] at h
  split at h
  · cases h
    exact hvalue
  · cases value with
    | obj members =>
      simp only at h
      split at h
      · obtain ⟨members', hmembers, h⟩ := bind_eq_ok.1 h
        cases h
        obtain ⟨hkeys, hdistinct⟩ := distinct_mapMembers hchange hmembers hvalue.of_obj.2
        exact Json.Distinct.obj (hkeys ▸ hvalue.of_obj.1) hdistinct
      · exact hchange _ _ h hvalue
    | arr items =>
      obtain ⟨items', hitems, h⟩ := bind_eq_ok.1 h
      cases h
      exact Json.Distinct.arr (distinct_mapItems hchange hitems hvalue.of_arr)
    | _ =>
      cases h
      exact hvalue

/-- The members that stay keep their names and their order. -/
theorem distinct_inlineMembers {members members' : List (String × Json)}
    (h : inlineMembers change members = .ok members')
    (hmembers : ∀ member ∈ members, member.2.Distinct) :
    (Entries.keys members').Sublist (Entries.keys members) ∧
      ∀ member ∈ members', member.2.Distinct := by
  induction members generalizing members' with
  | nil =>
    cases h
    exact ⟨List.Sublist.refl _, hmembers⟩
  | cons member rest ih =>
    obtain ⟨keyword, value⟩ := member
    rw [List.forall_mem_cons] at hmembers
    rw [inlineMembers] at h
    split at h
    · obtain ⟨hkeys, hdistinct⟩ := ih h hmembers.2
      exact ⟨hkeys.cons _, hdistinct⟩
    · obtain ⟨value', hvalue, h⟩ := bind_eq_ok.1 h
      obtain ⟨rest', hrest, h⟩ := bind_eq_ok.1 h
      cases h
      obtain ⟨hkeys, hdistinct⟩ := ih hrest hmembers.2
      exact ⟨hkeys.cons_cons _,
        List.forall_mem_cons.2 ⟨distinct_inlineValue hchange hvalue hmembers.1, hdistinct⟩⟩

theorem distinct_inlines {schema inlined : Json} (h : Inlines change schema inlined)
    (hschema : schema.Distinct) : inlined.Distinct := by
  cases h with
  | obj hmembers =>
    obtain ⟨hkeys, hdistinct⟩ := distinct_inlineMembers hchange hmembers hschema.of_obj.2
    exact Json.Distinct.obj (hschema.of_obj.1.sublist hkeys) hdistinct
  | other => exact hschema

end Values

theorem distinct_inlineWithin (hlibrary : library.Distinct) {depth : Nat} {document : String}
    {node inlined : Json} {active : List String}
    (h : library.inlineWithin depth document node active = .ok inlined) (hnode : node.Distinct) :
    inlined.Distinct := by
  induction depth generalizing document node inlined active with
  | zero => cases h
  | succ depth ih =>
    obtain ⟨resolved, henter, hinlines⟩ := inlineWithin_eq_ok h
    have hresolved := distinct_resolve hlibrary (enter_eq_ok.1 henter).1 hnode
    exact distinct_inlines (fun _ _ => ih) hinlines hresolved

/-- **No object in an inlined schema has two members of one name.** -/
theorem distinct_inline (hlibrary : library.Distinct) {document : String} {node inlined : Json}
    (h : library.inline document node = .ok inlined) (hnode : node.Distinct) : inlined.Distinct :=
  distinct_inlineWithin hlibrary h hnode

end Library

end TableExport
